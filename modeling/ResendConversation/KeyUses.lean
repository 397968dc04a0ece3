import ResendConversation.Calls

/-! # Uses of provider keys

A provider key is used by the calls that were placed under it and by the workers that have
claimed its rows and are about to call.  Every message is only ever carried under one key: the
lane of a message is fixed by its request, and in the batch lane its entry stays in the batch that
it was assigned to (`KeysUsed.carrier`).  All uses of a key measure the idempotency window from one
time (`KeysUsed.window`). -/

namespace ResendConversation

open Foundation Tx

variable {Digest : Type} {rt : Runtime Digest}

/-! ### Uses -/

/-- A key with the start of its window and the messages that are carried under it. -/
structure KeyUse where
  key : ProviderKey
  window : Time
  ids : List Uuid

def ProviderCall.use (call : ProviderCall) : KeyUse := ⟨call.key, call.windowStart, call.messageIds⟩

theorem ProviderCall.use_placed (call : ProviderCall) : call.placed.use = call.use := rfl

def ClaimedBatch.use (batch : ClaimedBatch Digest) : KeyUse :=
  ⟨.conversationOutbox batch.id, batch.firstAttemptAt, batch.messageIds⟩

def ClaimedEntry.use (entry : ClaimedEntry Digest) : KeyUse :=
  ⟨.attachmentOutbox entry.message.id, entry.firstAttemptAt, [entry.message.id]⟩

/-- The key under which a worker is about to call. -/
def Proc.use : Proc Digest → Option KeyUse
  | .batchDrain (.working batch (.claimed _)) => some batch.use
  | .entryDrain (.working _ _ entry (.claimed _)) => some entry.use
  | _ => none

theorem Proc.use_eq_none {p : Proc Digest} (h : p.sends = false) : p.use = none := by
  cases p with
  | batchDrain w =>
      cases w with
      | working batch phase => simp [sends, Proc.batch] at h
      | returned result => rfl
  | entryDrain w =>
      cases w with
      | idle remaining result => rfl
      | working remaining result entry phase => simp [sends, Proc.entry] at h
      | returned result => rfl
  | _ => rfl

def System.Uses (s : System Digest) (u : KeyUse) : Prop :=
  (∃ call ∈ s.provider.calls, call.use = u) ∨ ∃ pid p, s.Runs pid p ∧ p.use = some u

/-! ### Keys and rows -/

/-- The row that a key names. -/
def ProviderKey.subject : ProviderKey → Uuid
  | .conversation id | .email id | .attachmentOutbox id | .conversationOutbox id => id

/-- The ways to the provider. -/
inductive Lane where
  | conversation | email | attachments | batch
deriving DecidableEq

def ProviderKey.lane : ProviderKey → Lane
  | .conversation _ => .conversation
  | .email _ => .email
  | .attachmentOutbox _ => .attachments
  | .conversationOutbox _ => .batch

theorem ProviderKey.eq_of_lane {key key' : ProviderKey} (hlane : key.lane = key'.lane)
    (hsubject : key.subject = key'.subject) : key = key' := by
  cases key <;> cases key' <;> cases hlane <;> cases hsubject <;> rfl

/-- The way that the message of a request takes. -/
def SendRequest.lane (request : SendRequest) : Lane :=
  if request.queued then if request.hasAttachments then .attachments else .batch
  else
    match request.kind with
    | .direct => .email
    | .conversation => .conversation

/-- The view is that of a message that takes the lane. -/
def SendView.Takes (rt : Runtime Digest) (v : SendView Digest) (lane : Lane) : Prop :=
  ∃ request : SendRequest, v.requestHash = some (rt.hashSendRequest request) ∧ request.lane = lane

theorem SendView.Takes.unique (hinj : Function.Injective rt.hashSendRequest) {v : SendView Digest}
    {lane lane' : Lane} (h : v.Takes rt lane) (h' : v.Takes rt lane') : lane = lane' := by
  obtain ⟨request, hhash, rfl⟩ := h
  obtain ⟨request', hhash', rfl⟩ := h'
  rw [hinj (Option.some.inj (hhash.symm.trans hhash'))]

/-- The message may be carried under the key, as far as it is still stored. -/
structure Database.Carries (rt : Runtime Digest) (db : Database Digest) (key : ProviderKey)
    (id : Uuid) : Prop where
  drawn : id < db.nextId
  lane : ∀ v, db.view? id = some v → v.Takes rt key.lane
  single : key.lane ≠ .batch → key.subject = id
  batched : key.lane = .batch → ∀ e ∈ db.outboxEntries, e.messageId = id →
    e.batchId = some key.subject

/-- The window of the key starts at the time, as far as its row is still stored. -/
def Database.Opened (db : Database Digest) (key : ProviderKey) (window : Time) : Prop :=
  match key with
  | .conversation id | .email id => ∀ v, db.view? id = some v → v.createdAt = window
  | .attachmentOutbox id =>
      ∀ e ∈ db.attachmentOutboxEntries, e.messageId = id → e.firstAttemptAt = some window
  | .conversationOutbox b => ∀ r ∈ db.outboxBatches, r.id = b → r.firstAttemptAt = some window

/-- The row of the key is stored. -/
def Database.Keyed (db : Database Digest) : ProviderKey → Prop
  | .conversation id | .email id => ∃ v, db.view? id = some v
  | .attachmentOutbox id => ∃ e ∈ db.attachmentOutboxEntries, e.messageId = id
  | .conversationOutbox b => ∃ r ∈ db.outboxBatches, r.id = b

/-- The message and, in the batch lane, its entry are stored. -/
structure Database.Lined (db : Database Digest) (key : ProviderKey) (id : Uuid) : Prop where
  stored : ∃ v, db.view? id = some v
  entry : key.lane = .batch → ∃ e ∈ db.outboxEntries, e.messageId = id

theorem Database.Opened.unique {db : Database Digest} {key : ProviderKey} {w w' : Time}
    (hkeyed : db.Keyed key) (h : db.Opened key w) (h' : db.Opened key w') : w = w' := by
  cases key with
  | conversation id =>
      obtain ⟨v, hv⟩ := hkeyed
      exact (h v hv).symm.trans (h' v hv)
  | email id =>
      obtain ⟨v, hv⟩ := hkeyed
      exact (h v hv).symm.trans (h' v hv)
  | attachmentOutbox id =>
      obtain ⟨e, he, hid⟩ := hkeyed
      exact Option.some.inj ((h e he hid).symm.trans (h' e he hid))
  | conversationOutbox b =>
      obtain ⟨r, hr, hid⟩ := hkeyed
      exact Option.some.inj ((h r hr hid).symm.trans (h' r hr hid))

/-- A stored message is carried under one key. -/
theorem Database.Carries.unique (hinj : Function.Injective rt.hashSendRequest)
    {db : Database Digest} {key key' : ProviderKey} {id : Uuid} (hlined : db.Lined key id)
    (h : db.Carries rt key id) (h' : db.Carries rt key' id) : key = key' := by
  obtain ⟨v, hv⟩ := hlined.stored
  have hlane := (h.lane v hv).unique hinj (h'.lane v hv)
  refine ProviderKey.eq_of_lane hlane ?_
  by_cases hbatch : key.lane = .batch
  · obtain ⟨e, he, hid⟩ := hlined.entry hbatch
    exact Option.some.inj
      ((h.batched hbatch e he hid).symm.trans (h'.batched (hlane ▸ hbatch) e he hid))
  · rw [h.single hbatch, h'.single (hlane ▸ hbatch)]

/-! ### Later rows -/

/-- The rows of the outbox that still exist stay in their batches and keep their first attempts. -/
structure LanesKept (db db' : Database Digest) : Prop where
  entries : ∀ e' ∈ db'.outboxEntries, e'.messageId < db.nextId →
    ∃ e ∈ db.outboxEntries, e.messageId = e'.messageId ∧ ∀ b, e.batchId = some b →
      e'.batchId = some b
  attachmentEntries : ∀ e' ∈ db'.attachmentOutboxEntries, e'.messageId < db.nextId →
    ∃ e ∈ db.attachmentOutboxEntries, e.messageId = e'.messageId ∧
      ∀ w, e.firstAttemptAt = some w → e'.firstAttemptAt = some w
  batches : ∀ r' ∈ db'.outboxBatches, r'.id < db.nextId →
    ∃ r ∈ db.outboxBatches, r.id = r'.id ∧ r.firstAttemptAt = r'.firstAttemptAt

theorem LanesKept.of_eq {db db' : Database Digest} (hb : db'.outboxBatches = db.outboxBatches)
    (he : db'.outboxEntries = db.outboxEntries)
    (ha : db'.attachmentOutboxEntries = db.attachmentOutboxEntries) : LanesKept db db' where
  entries := fun e h _ => ⟨e, he ▸ h, rfl, fun _ h => h⟩
  attachmentEntries := fun e h _ => ⟨e, ha ▸ h, rfl, fun _ h => h⟩
  batches := fun r h _ => ⟨r, hb ▸ h, rfl, rfl⟩

theorem Database.Carries.later {db db' : Database Digest} {key : ProviderKey} {id : Uuid}
    (h : db.Carries rt key id) (hl : Later db db') (hk : LanesKept db db') :
    db'.Carries rt key id where
  drawn := h.drawn.trans_le hl.nextId_le
  lane := by
    intro v' hv'
    obtain ⟨v, hv, hevolves⟩ := hl.view id v' h.drawn hv'
    obtain ⟨request, hhash, hlane⟩ := h.lane v hv
    exact ⟨request, hevolves.requestHash.trans hhash, hlane⟩
  single := h.single
  batched := by
    intro hbatch e' he' hid
    obtain ⟨e, he, heid, hkept⟩ := hk.entries e' he' (hid ▸ h.drawn)
    exact hkept _ (h.batched hbatch e he (heid.trans hid))

theorem Database.Opened.later {db db' : Database Digest} {key : ProviderKey} {window : Time}
    (h : db.Opened key window) (hdrawn : key.subject < db.nextId) (hl : Later db db')
    (hk : LanesKept db db') :
    db'.Opened key window := by
  cases key with
  | conversation id =>
      intro v' hv'
      obtain ⟨v, hv, hevolves⟩ := hl.view id v' hdrawn hv'
      exact hevolves.createdAt.trans (h v hv)
  | email id =>
      intro v' hv'
      obtain ⟨v, hv, hevolves⟩ := hl.view id v' hdrawn hv'
      exact hevolves.createdAt.trans (h v hv)
  | attachmentOutbox id =>
      rintro e' he' rfl
      obtain ⟨e, he, hid, hkept⟩ := hk.attachmentEntries e' he' hdrawn
      exact hkept _ (h e he hid)
  | conversationOutbox b =>
      rintro r' hr' rfl
      obtain ⟨r, hr, hid, hkept⟩ := hk.batches r' hr' hdrawn
      exact hkept.symm.trans (h r hr hid)

/-! ### The invariant -/

/-- What is known of a use. -/
structure KeyUse.Valid (rt : Runtime Digest) (db : Database Digest) (u : KeyUse) : Prop where
  drawn : u.key.subject < db.nextId
  carries : ∀ id ∈ u.ids, db.Carries rt u.key id
  opened : db.Opened u.key u.window
  nodup : u.ids.Nodup

structure KeysUsed (rt : Runtime Digest) (s : System Digest) : Prop where
  valid : ∀ u, s.Uses u → u.Valid rt s.db
  window : ∀ u u', s.Uses u → s.Uses u' → u.key = u'.key → u.window = u'.window
  carrier : ∀ u u', s.Uses u → s.Uses u' → ∀ id, id ∈ u.ids → id ∈ u'.ids → u.key = u'.key

theorem keysUsed_initial (config : Config) (now : Time) :
    KeysUsed rt (System.initial config now : System Digest) := by
  have hnone : ∀ u, ¬(System.initial config now : System Digest).Uses u := by
    rintro u (⟨call, hcall, -⟩ | ⟨pid, p, hruns, -⟩)
    · cases hcall
    · cases hruns
  exact ⟨fun u h => absurd h (hnone u), fun u _ h => absurd h (hnone u),
    fun u _ h => absurd h (hnone u)⟩

theorem KeyUse.Valid.later {db db' : Database Digest} {u : KeyUse} (h : u.Valid rt db)
    (hl : Later db db') (hk : LanesKept db db') : u.Valid rt db' where
  drawn := h.drawn.trans_le hl.nextId_le
  carries := fun id hid => (h.carries id hid).later hl hk
  opened := h.opened.later h.drawn hl hk
  nodup := h.nodup

/-- A use whose rows are stored. -/
structure KeyUse.Rooted (rt : Runtime Digest) (db : Database Digest) (u : KeyUse) : Prop where
  valid : u.Valid rt db
  keyed : db.Keyed u.key
  lined : ∀ id ∈ u.ids, db.Lined u.key id

/-- A step that uses a key anew only while its rows are stored. -/
theorem KeysUsed.of_step (hinj : Function.Injective rt.hashSendRequest) {s s' : System Digest}
    (h : KeysUsed rt s) (hl : Later s.db s'.db) (hk : LanesKept s.db s'.db)
    (huses : ∀ u, s'.Uses u → s.Uses u ∨ u.Rooted rt s'.db) : KeysUsed rt s' := by
  have hvalid : ∀ u, s'.Uses u → u.Valid rt s'.db := fun u hu =>
    (huses u hu).elim (fun hold => (h.valid u hold).later hl hk) KeyUse.Rooted.valid
  refine ⟨hvalid, fun u u' hu hu' hkey => ?_, fun u u' hu hu' id hid hid' => ?_⟩
  · have hopened := (hvalid u hu).opened
    have hopened' := (hvalid u' hu').opened
    rw [← hkey] at hopened'
    rcases huses u hu with hold | hrooted
    · rcases huses u' hu' with hold' | hrooted
      · exact h.window u u' hold hold' hkey
      · exact Database.Opened.unique (hkey ▸ hrooted.keyed) hopened hopened'
    · exact Database.Opened.unique hrooted.keyed hopened hopened'
  · have hcarries := (hvalid u hu).carries id hid
    have hcarries' := (hvalid u' hu').carries id hid'
    rcases huses u hu with hold | hrooted
    · rcases huses u' hu' with hold' | hrooted
      · exact h.carrier u u' hold hold' id hid hid'
      · exact (Database.Carries.unique hinj (hrooted.lined id hid') hcarries' hcarries).symm
    · exact Database.Carries.unique hinj (hrooted.lined id hid) hcarries hcarries'

/-- What a step uses that places no call and claims nothing. -/
theorem System.uses_of_kept {s s' : System Digest}
    (hcalls : ∀ call ∈ s'.provider.calls, ∃ call₀ ∈ s.provider.calls, call₀.placed = call.placed)
    (hruns : ∀ pid p u, s'.Runs pid p → p.use = some u → ∃ p₀, s.Runs pid p₀ ∧ p₀.use = some u)
    (u : KeyUse) (h : s'.Uses u) : s.Uses u := by
  rcases h with ⟨call, hcall, rfl⟩ | ⟨pid, p, hp, huse⟩
  · obtain ⟨call₀, hcall₀, hplaced⟩ := hcalls call hcall
    exact .inl ⟨call₀, hcall₀, by rw [← call₀.use_placed, hplaced, call.use_placed]⟩
  · obtain ⟨p₀, hp₀, huse₀⟩ := hruns pid p u hp huse
    exact .inr ⟨pid, p₀, hp₀, huse₀⟩

/-- The uses after a call was placed by a process that stops being about to call. -/
theorem System.uses_call {s : System Digest} {call : ProviderCall} {pid : ℕ} {p : Proc Digest}
    (hp : p.use = none) {u : KeyUse} (h : ((s.call call).become pid p).Uses u) :
    s.Uses u ∨ u = call.use := by
  rcases h with ⟨c, hc, rfl⟩ | ⟨q, p', hq, huse⟩
  · rcases Table.mem_set.mp hc with rfl | ⟨hc, -⟩
    · exact .inr rfl
    · exact .inl (.inl ⟨c, hc, rfl⟩)
  · rcases System.runs_become.mp hq with ⟨-, rfl⟩ | ⟨-, hold⟩
    · rw [hp] at huse
      cases huse
    · exact .inl (.inr ⟨q, p', hold, huse⟩)

/-- The uses after a claim. -/
theorem System.uses_claim {s s' : System Digest} (hprovider : s'.provider = s.provider)
    (hprocs : s'.procs = s.procs) {pid : ℕ} {p : Proc Digest} {v : KeyUse} (hp : p.use = some v)
    {u : KeyUse} (h : (s'.become pid p).Uses u) :
    s.Uses u ∨ u = v := by
  rcases h with ⟨c, hc, rfl⟩ | ⟨q, p', hq, huse⟩
  · rw [System.become_provider, hprovider] at hc
    exact .inl (.inl ⟨c, hc, rfl⟩)
  · rcases System.runs_become.mp hq with ⟨-, rfl⟩ | ⟨-, hold⟩
    · exact .inr (Option.some.inj (huse.symm.trans hp))
    · rw [System.Runs, hprocs] at hold
      exact .inl (.inr ⟨q, p', hold, huse⟩)

/-! ### The rows after each step -/

theorem LanesKept.of_stored {ctx : SendContext Digest} {db db' : Database Digest} {id : Uuid}
    {v : SendView Digest} (hs : Stored ctx db db' id v) : LanesKept db db' where
  entries := by
    intro e he hlt
    rcases (hs.entries e).mp he with hold | ⟨-, -, rfl⟩
    · exact ⟨e, hold, rfl, fun _ h => h⟩
    · exact absurd hlt (Nat.not_lt.mpr hs.nextId_le)
  attachmentEntries := by
    intro e he hlt
    rcases (hs.attachmentEntries e).mp he with hold | ⟨-, -, rfl⟩
    · exact ⟨e, hold, rfl, fun _ h => h⟩
    · exact absurd hlt (Nat.not_lt.mpr hs.nextId_le)
  batches := fun r hr _ => ⟨r, hs.batches ▸ hr, rfl, rfl⟩

theorem LanesKept.of_deleted {c : Uuid} {db db' : Database Digest}
    (hd : ConversationDeleted c db db') :
    LanesKept db db' where
  entries := fun e he _ => ⟨e, ((hd.entries e).mp he).1, rfl, fun _ h => h⟩
  attachmentEntries := fun e he _ => ⟨e, ((hd.attachmentEntries e).mp he).1, rfl, fun _ h => h⟩
  batches := fun r hr _ => ⟨r, hd.batches ▸ hr, rfl, rfl⟩

/-- A claim assigns only entries that are in no batch. -/
theorem LanesKept.of_batchClaim {now : Time} {db db' : Database Digest}
    {loaded : LoadedBatch Digest} (hq : Queue rt db) (hc : BatchClaim now db db' loaded) :
    LanesKept db db' := by
  cases hc with
  | @leased b found ready db_eq loaded =>
      subst db_eq
      rw [hq.swept_eq]
      refine ⟨fun e he _ => ⟨e, he, rfl, fun _ h => h⟩, fun e he _ => ⟨e, he, rfl, fun _ h => h⟩,
        fun r' hr' _ => ?_⟩
      dsimp only at hr'
      rw [Table.mem_update] at hr'
      obtain ⟨r, hr, rfl⟩ := hr'
      refine ⟨r, hr, ?_⟩
      split
      · exact ⟨rfl, rfl⟩
      · exact ⟨rfl, rfl⟩
  | @created ids table limit locked entries nonempty inserted db_eq loaded =>
      subst db_eq
      rw [hq.swept_eq]
      refine ⟨fun e' he' _ => ?_, fun e he _ => ⟨e, he, rfl, fun _ h => h⟩, fun r hr hlt => ?_⟩
      · obtain ⟨e, he, hid, ⟨rfl, -⟩ | ⟨-, hnone, -⟩⟩ := mem_assigned he'
        · exact ⟨e', he, rfl, fun _ h => h⟩
        · refine ⟨e, he, hid.symm, fun b hb => ?_⟩
          rw [hnone] at hb
          cases hb
      · rcases (Table.mem_insert? inserted).mp hr with hold | rfl
        · exact ⟨r, hold, rfl, rfl⟩
        · exact absurd (Nat.lt_succ_self _) (Nat.lt_asymm hlt)

theorem LanesKept.of_batchFinalized {batch : ClaimedBatch Digest} {decision : BatchDecision}
    {db db' : Database Digest} (hf : BatchFinalized batch decision db db') : LanesKept db db' where
  entries := by
    intro e he _
    rw [hf.entries, Table.mem_delete] at he
    exact ⟨e, he.1, rfl, fun _ h => h⟩
  attachmentEntries := fun e he _ => ⟨e, hf.attachmentEntries ▸ he, rfl, fun _ h => h⟩
  batches := by
    intro r hr _
    rw [hf.batches, Table.mem_delete] at hr
    exact ⟨r, hr.1, rfl, rfl⟩

/-- A claim or a rescheduling keeps the first attempt of a batch. -/
theorem LanesKept.of_batchRescheduled {batch : ClaimedBatch Digest} {db db' : Database Digest}
    (hr : BatchRescheduled batch db db') : LanesKept db db' := by
  obtain ⟨now, errorCode, rfl⟩ := hr.db_eq
  refine ⟨fun e he _ => ⟨e, he, rfl, fun _ h => h⟩, fun e he _ => ⟨e, he, rfl, fun _ h => h⟩,
    fun r' hr' _ => ?_⟩
  dsimp only at hr'
  rw [Table.mem_update] at hr'
  obtain ⟨r, hr, rfl⟩ := hr'
  refine ⟨r, hr, ?_⟩
  split
  · exact ⟨rfl, rfl⟩
  · exact ⟨rfl, rfl⟩

theorem LanesKept.of_entryClaim {now : Time} {db db' : Database Digest}
    {entry : ClaimedEntry Digest} {e : EmailAttachmentOutboxEntry} (hq : Queue rt db)
    (hc : EntryClaim now db db' entry e) :
    LanesKept db db' := by
  obtain ⟨-, -, -, rfl, -, -, -, -⟩ := hc
  rw [hq.sweptAttachments_eq]
  refine ⟨fun e he _ => ⟨e, he, rfl, fun _ h => h⟩, fun r' hr' _ => ?_,
    fun r hr _ => ⟨r, hr, rfl, rfl⟩⟩
  dsimp only at hr'
  rw [Table.mem_update] at hr'
  obtain ⟨r, hr, rfl⟩ := hr'
  refine ⟨r, hr, ?_⟩
  split
  · refine ⟨rfl, fun w hw => ?_⟩
    rw [EmailAttachmentOutboxEntry.lease, hw]
    rfl
  · exact ⟨rfl, fun _ h => h⟩

theorem LanesKept.of_entryFinalized {entry : ClaimedEntry Digest} {decision : EntryDecision}
    {db db' : Database Digest} (hf : EntryFinalized entry decision db db') : LanesKept db db' where
  entries := fun e he _ => ⟨e, hf.entries ▸ he, rfl, fun _ h => h⟩
  attachmentEntries := by
    intro e he _
    rw [hf.attachmentEntries, Table.mem_delete] at he
    exact ⟨e, he.1, rfl, fun _ h => h⟩
  batches := fun r hr _ => ⟨r, hf.batches ▸ hr, rfl, rfl⟩

theorem LanesKept.of_entryRescheduled {entry : ClaimedEntry Digest} {db db' : Database Digest}
    (hr : EntryRescheduled entry db db') : LanesKept db db' := by
  obtain ⟨now, errorCode, rfl⟩ := hr.db_eq
  refine ⟨fun e he _ => ⟨e, he, rfl, fun _ h => h⟩, fun r' hr' _ => ?_,
    fun r hr _ => ⟨r, hr, rfl, rfl⟩⟩
  dsimp only at hr'
  rw [Table.mem_update] at hr'
  obtain ⟨r, hr, rfl⟩ := hr'
  refine ⟨r, hr, ?_⟩
  split
  · exact ⟨rfl, fun _ h => h⟩
  · exact ⟨rfl, fun _ h => h⟩

theorem LanesKept.of_background {db db' : Database Digest} (hb : Background db db') :
    LanesKept db db' :=
  .of_eq hb.batches hb.entries hb.attachmentEntries

/-- Every step keeps the batches of the entries and the first attempts. -/
theorem Effect.lanesKept [DecidableEq Digest] {s s' : System Digest} {a : Action Digest}
    (hc : Coherent rt s) (he : Effect rt s a s') : LanesKept s.db s'.db := by
  have hrefl : LanesKept s.db s.db := .of_eq rfl rfl rfl
  cases he with
  | quiet passive => exact .of_background passive.toBackground
  | filed background => exact .of_background background
  | deleted c db' action deletion eq => exact eq ▸ .of_deleted deletion
  | stored pid c h reopened db' id p action runs reopens stores next eq =>
      obtain ⟨⟨v, hs⟩, -⟩ := stores
      exact eq ▸ .of_stored hs
  | expired pid c h id db' p action runs phase rewrite next eq =>
      exact eq ▸ .of_eq rewrite.batches rewrite.entries rewrite.attachmentEntries
  | refused pid c h d attachments m error db' p action runs phase free found pending cause
      rewrite next eq =>
      exact eq ▸ .of_eq rewrite.batches rewrite.entries rewrite.attachmentEntries
  | settled pid c h d m callId observation db' p action runs phase waits observed rewrite next eq =>
      rcases rewrite with rfl | rewrite
      · exact eq ▸ hrefl
      · exact eq ▸ .of_eq rewrite.batches rewrite.entries rewrite.attachmentEntries
  | batchSwept pid p next eq =>
      subst eq
      rw [System.become_db, hc.queue.swept_eq]
      exact .of_eq rfl rfl rfl
  | batchClaimed pid c loaded db' p claim free next eq => exact eq ▸ .of_batchClaim hc.queue claim
  | batchFinalized pid c batch decision db' p action runs finalized next eq =>
      exact eq ▸ .of_batchFinalized finalized
  | batchRescheduled pid c batch decision db' p action runs rescheduled next eq =>
      exact eq ▸ .of_batchRescheduled rescheduled
  | entrySwept pid p next eq =>
      subst eq
      rw [System.become_db, hc.queue.sweptAttachments_eq]
      exact .of_eq rfl rfl rfl
  | entryClaimed pid c remaining result entry e db' action runs claim eq =>
      exact eq ▸ .of_entryClaim hc.queue claim
  | entryFinalized pid c remaining result entry decision db' p action runs finalized next eq =>
      exact eq ▸ .of_entryFinalized finalized
  | entryRescheduled pid c remaining result entry decision db' p action runs rescheduled next eq =>
      exact eq ▸ .of_entryRescheduled rescheduled
  | _ =>
      next eq =>
        subst eq
        exact .of_eq rfl rfl rfl

/-! ### New uses -/

/-- The lane of a queued message. -/
theorem Database.Queued.takes {db : Database Digest} {id : Uuid} {attachments : Bool}
    (h : db.Queued rt id attachments) :
    ∃ v, db.view? id = some v ∧ v.Takes rt (if attachments then .attachments else .batch) := by
  obtain ⟨v, hv, -, request, hhash, hqueued, rfl⟩ := h
  exact ⟨v, hv, request, hhash, by rw [SendRequest.lane, if_pos hqueued]⟩

/-- A claimed batch as it was loaded. -/
theorem ClaimedBatch.use_rooted {db : Database Digest} (hq : Queue rt db) (ho : Origins rt db)
    {loaded : LoadedBatch Digest} {batch : ClaimedBatch Digest} (hl : Loaded db batch.id loaded)
    (hfirst : loaded.batch.firstAttemptAt = some batch.firstAttemptAt)
    (hm : batch.messages = loaded.messages) :
    batch.use.Rooted rt db := by
  have hheld := hq.batchHeld ho hl rfl hm
  have hrow := Table.mem_of_get? hl.1
  have hid : loaded.batch.id = batch.id := Table.key_of_get? hl.1
  have hentry : ∀ id ∈ batch.messageIds, ∃ e ∈ db.outboxEntries, e.messageId = id ∧
      e.batchId = some batch.id := by
    intro id hin
    rw [ClaimedBatch.messageIds, hm, hq.loaded_messageIds hl] at hin
    obtain ⟨e, he, rfl⟩ := List.mem_map.mp hin
    obtain ⟨hmem, hbatch⟩ := Table.mem_selectSorted.mp he
    exact ⟨e, hmem, rfl, by simpa using hbatch⟩
  refine ⟨⟨hheld.id_lt, fun id hin => ?_, fun r hr hkey => ?_, hheld.nodup⟩, ⟨_, hrow, hid⟩,
    fun id hin => ?_⟩
  · obtain ⟨e, he, rfl, hbatch⟩ := hentry id hin
    obtain ⟨v, hv, htakes⟩ := (hq.entry e he).takes
    refine ⟨hheld.ids_lt _ hin, fun w hw => ?_, fun hne => absurd rfl hne, fun _ e' he' hkey => ?_⟩
    · obtain rfl := Option.some.inj (hv.symm.trans hw)
      exact htakes
    · rw [Table.key_inj he' he hkey]
      exact hbatch
  · rw [Table.key_inj hr hrow (hkey.trans hid.symm)]
    exact hfirst
  · obtain ⟨e, he, rfl, -⟩ := hentry id hin
    obtain ⟨v, hv, -⟩ := hq.entry e he
    exact ⟨⟨v, hv⟩, fun _ => ⟨e, he, rfl⟩⟩

/-- A claimed entry whose row carries its first attempt. -/
theorem ClaimedEntry.use_rooted {db : Database Digest} (hq : Queue rt db) (ho : Origins rt db)
    {entry : ClaimedEntry Digest} {e : EmailAttachmentOutboxEntry}
    (he : e ∈ db.attachmentOutboxEntries) (hid : e.messageId = entry.message.id)
    (hfirst : e.firstAttemptAt = some entry.firstAttemptAt) :
    entry.use.Rooted rt db := by
  obtain ⟨v, hv, htakes⟩ := (hq.attachmentEntry e he).takes
  rw [hid] at hv
  have hdrawn := (ho.origin _ v hv).1
  refine ⟨⟨hdrawn, fun id hin => ?_, fun e' he' hkey => ?_, List.nodup_singleton _⟩, ⟨e, he, hid⟩,
    fun id hin => ?_⟩
  · obtain rfl := List.mem_singleton.mp hin
    refine ⟨hdrawn, fun w hw => ?_, fun _ => rfl, fun hlane => by cases hlane⟩
    obtain rfl := Option.some.inj (hv.symm.trans hw)
    exact htakes
  · rw [Table.key_inj he' he (hkey.trans hid.symm)]
    exact hfirst
  · obtain rfl := List.mem_singleton.mp hin
    exact ⟨⟨v, hv⟩, fun hlane => by cases hlane⟩

/-- The call of a synchronous delivery. -/
theorem syncCall_rooted (hinj : Function.Injective rt.hashSendRequest) {s : System Digest}
    {d : Delivery} {m : EmailMessage Digest} {attachments : List SendEmailAttachmentInput}
    (ho : Origins rt s.db) (hm : s.db.messages.get? d.messageId = some m) {request : SendRequest}
    (hqueued :
      request.queued = false) (hhash : m.requestHash = some (rt.hashSendRequest request)) :
    (syncCall s d m attachments).use.Rooted rt s.db := by
  have hid : m.id = d.messageId := Table.key_of_get? hm
  have hv : s.db.view? m.id = some m.sendView := Database.view?_of_get? (hid ▸ hm)
  have hdrawn := (ho.origin _ _ hv).1
  obtain ⟨request', hhash', hkind⟩ := (ho.outbound hv hhash).request
  obtain rfl : request' = request := hinj (Option.some.inj (hhash'.symm.trans hhash))
  have hsubject : (singleSendKey m).subject = m.id := by
    unfold singleSendKey
    split
    · rfl
    · rfl
  have hlane : (singleSendKey m).lane = request'.lane := by
    rw [SendRequest.lane, hqueued, ← hkind]
    change (singleSendKey m).lane =
      match m.kind with | .direct => Lane.email | .conversation => .conversation
    unfold singleSendKey
    cases m.kind with
    | direct => rfl
    | conversation => rfl
  have hbatch : (singleSendKey m).lane ≠ .batch := by
    unfold singleSendKey
    split
    · simp [ProviderKey.lane]
    · simp [ProviderKey.lane]
  have hopened : s.db.Opened (singleSendKey m) m.createdAt := by
    have hwindow : ∀ w, s.db.view? m.id = some w → w.createdAt = m.createdAt := fun w hw => by
      obtain rfl := Option.some.inj (hv.symm.trans hw)
      rfl
    unfold singleSendKey
    split
    · exact hwindow
    · exact hwindow
  have hkeyed : s.db.Keyed (singleSendKey m) := by
    unfold singleSendKey
    split
    · exact ⟨_, hv⟩
    · exact ⟨_, hv⟩
  refine ⟨⟨?_, fun id hin => ?_, hopened, List.nodup_singleton _⟩, hkeyed, fun id hin => ?_⟩
  · change (singleSendKey m).subject < s.db.nextId
    rw [hsubject]
    exact hdrawn
  · obtain rfl := List.mem_singleton.mp hin
    refine ⟨hdrawn, fun w hw => ?_, fun _ => hsubject, fun h => absurd h hbatch⟩
    obtain rfl := Option.some.inj (hv.symm.trans hw)
    exact ⟨request', hhash', hlane.symm⟩
  · obtain rfl := List.mem_singleton.mp hin
    exact ⟨⟨_, hv⟩, fun h => absurd h hbatch⟩

/-- Drawing identifiers keeps the rows of a use. -/
theorem KeyUse.Rooted.of_nextId {db : Database Digest} {u : KeyUse} (h : u.Rooted rt db) {n : Uuid}
    (hn : db.nextId ≤ n) : u.Rooted rt { db with nextId := n } where
  valid := h.valid.later (.of_frame (background_nextId db hn).toFrame fun _ v _ => .refl v)
    (.of_eq rfl rfl rfl)
  keyed := h.keyed
  lined := fun id hid => ⟨(h.lined id hid).stored, (h.lined id hid).entry⟩

/-- A step uses a key as it was used before, or while its rows are stored. -/
theorem Effect.uses [DecidableEq Digest] {s s' : System Digest} {a : Action Digest}
    (hinj : Function.Injective rt.hashSendRequest) (hc : Coherent rt s) (he : Effect rt s a s') :
    ∀ u, s'.Uses u → s.Uses u ∨ u.Rooted rt s'.db := by
  have hc' := (he.coherent hinj hc).1
  have hidle : ∀ {p : Proc Digest}, p.sends = false → p.use = none := Proc.use_eq_none
  -- a step that places no call and claims nothing
  have hkept : ∀ {t : System Digest} {pid : ℕ} {p : Proc Digest}, t.procs = s.procs → p.use = none →
      (∀ call ∈ t.provider.calls, ∃ call₀ ∈ s.provider.calls, call₀.placed = call.placed) →
      ∀ u, (t.become pid p).Uses u → s.Uses u ∨ u.Rooted rt (t.become pid p).db :=
    fun {t pid p} hprocs hnone hcalls u hu => .inl (@System.uses_of_kept _ s (t.become pid p) hcalls
      (System.kept_of_become hprocs (.inl hnone)) u hu)
  have hsame := Provider.placed_same (rfl : s.provider = s.provider)
  cases he with
  | quiet passive provider leases objects now retires =>
      exact fun u hu => .inl (System.uses_of_kept (Provider.placed_same provider)
        (System.kept_of_retires (fun _ => hidle) fun pid p hp hs =>
          retires pid p hp (.inl hs)) u hu)
  | filed background provider leases now retires =>
      exact fun u hu => .inl (System.uses_of_kept (Provider.placed_same provider)
        (System.kept_of_retires (fun _ => hidle) retires) u hu)
  | reached callId accepted answer provider action reach eq =>
      subst eq
      exact fun u hu =>
        .inl (@System.uses_of_kept _ s { s with provider := provider } (Provider.placed_reach reach)
        (fun pid p w hp hw => ⟨p, hp, hw⟩) u hu)
  | deleted c db' action deletion eq =>
      subst eq
      exact fun u hu => .inl hu
  | stored pid c handler reopened db' id p action runs reopens stores next eq =>
      subst eq
      refine hkept rfl ?_ hsame
      split at next
      next => exact hidle next.1
      next => rw [next]; rfl
  | engaged pid c handler m action runs found hash sync eq => exact eq ▸ hkept rfl rfl hsame
  | reopening pid c handler conversation action runs found topic eq =>
      exact eq ▸ hkept rfl rfl hsame
  | expiring pid c handler id action runs phase eq => exact eq ▸ hkept rfl rfl hsame
  | resumed pid c handler m action runs phase found window eq => exact eq ▸ hkept rfl rfl hsame
  | prepared pid c handler d attachments action runs phase eq => exact eq ▸ hkept rfl rfl hsame
  | expired pid c handler id db' p action runs phase rewrite next eq =>
      exact eq ▸ hkept rfl (hidle next.1) hsame
  | called pid c handler d attachments m action runs phase free found pending eq =>
      subst eq
      obtain ⟨-, hqueued, hhash⟩ := (hc.fits pid _ runs).delivers handler.request d.messageId
        (by simp [Proc.delivers, phase])
      intro u hu
      rcases System.uses_call rfl hu with hold | rfl
      · exact .inl hold
      · exact .inr ((syncCall_rooted hinj hc.origins found hqueued
          (hhash _ (Database.view?_of_get? found))).of_nextId (Nat.le_succ _))
  | refused pid c handler d attachments m error db' p action runs phase free found pending cause
      rewrite next eq =>
      exact eq ▸ hkept rfl (hidle next.1) hsame
  | settled pid c handler d m callId observation db' p action runs phase waits observed
      rewrite next eq =>
      exact eq ▸ hkept rfl (hidle next.1) (Provider.placed_observe _ _ _)
  | batchSwept pid p next eq => exact eq ▸ hkept rfl (hidle next.1) hsame
  | batchClaimed pid c loaded db' p claim free next eq =>
      subst eq
      obtain ⟨batch, hcheck, hid, -, -, hfirst, hm⟩ :=
        hc'.queue.checkClaim_eq_ok s.db.nextId claim.loaded_eq
      rw [hcheck] at next
      subst next
      intro u hu
      rcases System.uses_claim rfl rfl rfl hu with hold | rfl
      · exact .inl hold
      · exact .inr (ClaimedBatch.use_rooted hc'.queue hc'.origins (hid ▸ claim.loaded_eq) hfirst hm)
  | batchSkipped pid c batch claimedAt decision action runs decided eq =>
      exact eq ▸ hkept rfl rfl hsame
  | batchCalled pid c batch claimedAt action runs window eq =>
      subst eq
      intro u hu
      rcases System.uses_call rfl hu with hold | rfl
      · exact .inl hold
      · exact .inl (.inr ⟨pid, _, runs, rfl⟩)
  | batchObserved pid c batch callId observation action runs observed eq =>
      exact eq ▸ hkept rfl rfl (Provider.placed_observe _ _ _)
  | batchFinalized pid c batch decision db' p action runs finalized next eq =>
      exact eq ▸ hkept rfl (hidle next.1) hsame
  | batchRescheduled pid c batch decision db' p action runs rescheduled next eq =>
      exact eq ▸ hkept rfl (hidle next.1) hsame
  | entrySwept pid p next eq => exact eq ▸ hkept rfl (hidle next.1) hsame
  | entryClaimed pid c remaining result entry e db' action runs claim eq =>
      subst eq
      intro u hu
      rcases System.uses_claim rfl rfl rfl hu with hold | rfl
      · exact .inl hold
      · have hid : entry.message.id = e.messageId := Table.key_of_get? claim.message
        have hfound : e.lease (s.clock c.readAt) s.db.nextId ∈ db'.attachmentOutboxEntries := by
          rw [claim.db_eq]
          dsimp only
          rw [Table.mem_update]
          exact ⟨e, claim.found, if_pos (beq_self_eq_true _)⟩
        refine .inr (ClaimedEntry.use_rooted hc'.queue hc'.origins hfound hid.symm ?_)
        rw [claim.firstAttemptAt]
        rfl
  | entrySkipped pid c remaining result entry claimedAt decision action runs decided eq =>
      exact eq ▸ hkept rfl rfl hsame
  | entryCalled pid c remaining result entry claimedAt attachments action runs window eq =>
      subst eq
      intro u hu
      rcases System.uses_call rfl hu with hold | rfl
      · exact .inl hold
      · exact .inl (.inr ⟨pid, _, runs, rfl⟩)
  | entryObserved pid c remaining result entry callId observation action runs observed eq =>
      exact eq ▸ hkept rfl rfl (Provider.placed_observe _ _ _)
  | entryFinalized pid c remaining result entry decision db' p action runs finalized next eq =>
      exact eq ▸ hkept rfl (hidle next.1) hsame
  | entryRescheduled pid c remaining result entry decision db' p action runs rescheduled next eq =>
      exact eq ▸ hkept rfl (hidle next.1) hsame
  | entryRedecided pid c remaining result entry decision name message action runs eq =>
      exact eq ▸ hkept rfl rfl hsame

/-- Every step uses the keys in order. -/
theorem Effect.keysUsed [DecidableEq Digest] {s s' : System Digest} {a : Action Digest}
    (hinj : Function.Injective rt.hashSendRequest) (hc : Coherent rt s) (h : KeysUsed rt s)
    (he : Effect rt s a s') : KeysUsed rt s' :=
  h.of_step hinj (he.coherent hinj hc).2 (he.lanesKept hc) (he.uses hinj hc)

end ResendConversation
