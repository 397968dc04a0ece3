import ResendConversation.Calls

/-! # Payloads of a batch

The batch lane does not store the payload of a batch: every claim rebuilds it from the entries of
the batch and the rows of their messages.  Nothing that the service does to a message changes what
its payload is built from, and the entries of a batch stay as they were assigned.  Only the
deletion of a conversation takes entries from a batch, and with them emails from the calls that
follow under the same key. -/

namespace ResendConversation

open Foundation Tx

variable {Digest : Type} {rt : Runtime Digest}

/-! ### Payloads -/

/-- The payload that a claim of the batch rebuilds. -/
def Database.batchPayload (db : Database Digest) (b : Uuid) : List SendEmailInput :=
  (batchEntries db b).filterMap fun e => (db.view? e.messageId).map SendView.payload

/-- The payload of the worker's calls. -/
def ClaimedBatch.payload (batch : ClaimedBatch Digest) : List SendEmailInput :=
  batch.messages.map fun m => buildSendEmailInput m []

/-- The batch of a worker that has claimed it and not called yet. -/
def Proc.claimed : Proc Digest → Option (ClaimedBatch Digest)
  | .batchDrain (.working batch (.claimed _)) => some batch
  | _ => none

theorem Proc.claimed_eq_none {p : Proc Digest} (h : p.sends = false) : p.claimed = none := by
  cases p with
  | batchDrain w =>
      cases w with
      | working batch phase => simp [sends, Proc.batch] at h
      | returned result => rfl
  | _ => rfl

/-- The payload is that of a call under the key of the batch, or of a call about to be placed. -/
def System.Sends (s : System Digest) (b : Uuid) (payload : List SendEmailInput) : Prop :=
  (∃ call ∈ s.provider.calls, call.key = .conversationOutbox b ∧ call.payload = payload) ∨
    ∃ pid p batch, s.Runs pid p ∧ p.claimed = some batch ∧ batch.id = b ∧ batch.payload = payload

/-- The key of the batch was used, or is about to be. -/
def System.used (s : System Digest) (b : Uuid) : Bool :=
  s.provider.calls.rows.any (fun call => call.key == .conversationOutbox b) ||
    s.procs.rows.any fun p => p.2.claimed.any fun batch => batch.id == b

theorem System.used_iff {s : System Digest} {b : Uuid} : s.used b = true ↔
    ∃ payload, s.Sends b payload := by
  rw [used, Bool.or_eq_true, List.any_eq_true, List.any_eq_true]
  constructor
  · rintro (⟨call, hcall, hkey⟩ | ⟨⟨pid, p⟩, hmem, hclaimed⟩)
    · exact ⟨_, .inl ⟨call, hcall, by simpa using hkey, rfl⟩⟩
    · obtain ⟨batch, hbatch, hid⟩ := (Option.any_eq_true _ _).mp hclaimed
      exact ⟨_, .inr ⟨pid, p, batch, System.runs_iff_mem.mpr hmem, hbatch, by simpa using hid, rfl⟩⟩
  · rintro ⟨payload, ⟨call, hcall, hkey, -⟩ | ⟨pid, p, batch, hruns, hclaimed, hid, -⟩⟩
    · exact .inl ⟨call, hcall, by simpa using hkey⟩
    · refine .inr ⟨(pid, p), System.runs_iff_mem.mp hruns, ?_⟩
      rw [hclaimed]
      simpa using hid

/-- The conversation that an action deletes. -/
def Action.deletes : Action Digest → Option Uuid
  | .operator (.deleteConversation c) => some c
  | _ => none

/-- No conversation is deleted that has a message in a batch whose key was used. -/
def KeepsBatches (s : System Digest) (a : Action Digest) : Prop :=
  ∀ c ∈ a.deletes, ∀ e ∈ s.db.outboxEntries, e.batchId.any s.used = true →
    (s.db.messages.get? e.messageId).all (fun m => m.conversationId != some c) = true

instance (s : System Digest) (a : Action Digest) : Decidable (KeepsBatches s a) :=
  inferInstanceAs (Decidable (∀ c ∈ a.deletes, ∀ e ∈ s.db.outboxEntries.rows, _))

/-! ### The entries of a batch -/

/-- The entries of a batch are determined by their positions. -/
theorem batchEntries_congr {db db' : Database Digest} {b : Uuid} (hq : Queue rt db)
    (hpositions : ∀ e ∈ db.outboxEntries, e.batchId.isSome → e.batchPosition.isSome)
    (hentries : ∀ e, e.batchId = some b → (e ∈ db'.outboxEntries ↔ e ∈ db.outboxEntries)) :
    batchEntries db' b = batchEntries db b := by
  let le := fun e e' : EmailOutboxEntry => e.batchPosition.getD 0 ≤ e'.batchPosition.getD 0
  have : Std.Total le := ⟨fun e e' => Nat.le_total _ _⟩
  have : IsTrans EmailOutboxEntry le := ⟨fun _ _ _ h h' => Nat.le_trans h h'⟩
  have hmem : ∀ e, e ∈ batchEntries db' b ↔ e ∈ batchEntries db b := by
    intro e
    rw [batchEntries, batchEntries, Table.mem_selectSorted, Table.mem_selectSorted, beq_iff_eq]
    constructor
    · rintro ⟨he, hb⟩
      exact ⟨(hentries e hb).mp he, hb⟩
    · rintro ⟨he, hb⟩
      exact ⟨(hentries e hb).mpr he, hb⟩
  have hantisymm : ∀ e e', e ∈ batchEntries db' b → e' ∈ batchEntries db b → le e e' → le e' e →
      e = e' := by
    intro e e' he he' hle hle'
    obtain ⟨he, hb⟩ := Table.mem_selectSorted.mp ((hmem e).mp he)
    obtain ⟨he', hb'⟩ := Table.mem_selectSorted.mp he'
    rw [beq_iff_eq] at hb hb'
    refine hq.position e he e' he' (by rw [hb]; rfl) (hb'.trans hb.symm) ?_
    obtain ⟨i, hi⟩ := Option.isSome_iff_exists.mp (hpositions e he (by rw [hb]; rfl))
    obtain ⟨j, hj⟩ := Option.isSome_iff_exists.mp (hpositions e' he' (by rw [hb']; rfl))
    have heq := Nat.le_antisymm hle hle'
    rw [hi, hj] at heq
    rw [hi, hj, show i = j from heq]
  have hperm : (batchEntries db' b).Perm (batchEntries db b) :=
    (List.perm_ext_iff_of_nodup (db'.outboxEntries.nodup_map_selectSorted _ _).of_map
      (db.outboxEntries.nodup_map_selectSorted _ _).of_map).mpr hmem
  exact List.Perm.eq_of_pairwise hantisymm (List.pairwise_insertionSort le _)
    (List.pairwise_insertionSort le _) hperm

/-- The payload of a batch whose entries and whose messages' payloads are kept. -/
theorem batchPayload_congr {db db' : Database Digest} {b : Uuid} (hq : Queue rt db)
    (hpositions : ∀ e ∈ db.outboxEntries, e.batchId.isSome → e.batchPosition.isSome)
    (hentries : ∀ e, e.batchId = some b → (e ∈ db'.outboxEntries ↔ e ∈ db.outboxEntries))
    (hpayloads : ∀ e ∈ db.outboxEntries, e.batchId = some b →
      (db'.view? e.messageId).map SendView.payload = (db.view? e.messageId).map SendView.payload) :
    db'.batchPayload b = db.batchPayload b := by
  rw [Database.batchPayload, Database.batchPayload, batchEntries_congr hq hpositions hentries]
  refine List.filterMap_congr fun e he => ?_
  obtain ⟨he, hb⟩ := Table.mem_selectSorted.mp he
  exact hpayloads e he (by simpa using hb)

theorem Loaded.payload {db : Database Digest} {b : Uuid} {loaded : LoadedBatch Digest}
    (h : Loaded db b loaded) {batch : ClaimedBatch Digest}
    (hmessages : batch.messages = loaded.messages) :
    batch.payload = db.batchPayload b := by
  rw [ClaimedBatch.payload, hmessages, h.2, Database.batchPayload, List.map_filterMap]
  refine List.filterMap_congr fun e _ => ?_
  rw [Database.view?, Option.map_map]
  rfl

/-! ### The invariant -/

/-- All calls under the key of a batch carry one payload, which a later claim rebuilds. -/
structure BatchPayloads (s : System Digest) : Prop where
  agree : ∀ b p q, s.Sends b p → s.Sends b q → p = q
  stored : ∀ b p, s.Sends b p → (s.db.outboxBatches.get? b).isSome → s.db.batchPayload b = p
  drawn : ∀ b p, s.Sends b p → b < s.db.nextId
  positions : ∀ e ∈ s.db.outboxEntries, e.batchId.isSome → e.batchPosition.isSome

theorem batchPayloads_initial (config : Config) (now : Time) :
    BatchPayloads (System.initial config now : System Digest) := by
  have hnone : ∀ b p, ¬(System.initial config now : System Digest).Sends b p := by
    rintro b p (⟨call, hcall, -⟩ | ⟨pid, q, batch, hruns, -⟩)
    · cases hcall
    · cases hruns
  refine ⟨fun b p q h => absurd h (hnone b p), fun b p h => absurd h (hnone b p),
    fun b p h => absurd h (hnone b p), fun e he => ?_⟩
  cases he

/-- A step after which the used batches have the same payloads, and which uses a batch only with
the payload that it stores. -/
theorem BatchPayloads.of_step {s s' : System Digest} (h : BatchPayloads s) (hq : Queue rt s.db)
    (hn : s.db.nextId ≤ s'.db.nextId)
    (hsends : ∀ b p, s'.Sends b p → s.Sends b p ∨
      (b < s'.db.nextId ∧ (s'.db.outboxBatches.get? b).isSome ∧ s'.db.batchPayload b = p))
    (hrow : ∀ b, s.used b = true → (s'.db.outboxBatches.get? b).isSome →
      (s.db.outboxBatches.get? b).isSome)
    (hentries : ∀ b, s.used b = true → (s'.db.outboxBatches.get? b).isSome →
      ∀ e, e.batchId = some b → (e ∈ s'.db.outboxEntries ↔ e ∈ s.db.outboxEntries))
    (hpayloads : ∀ b, s.used b = true → ∀ e ∈ s.db.outboxEntries, e.batchId = some b →
      (s'.db.view? e.messageId).map SendView.payload =
        (s.db.view? e.messageId).map SendView.payload)
    (hpositions : ∀ e ∈ s'.db.outboxEntries, e.batchId.isSome → e.batchPosition.isSome) :
    BatchPayloads s' := by
  have hused : ∀ {b p}, s.Sends b p → s.used b = true := fun hs => System.used_iff.mpr ⟨_, hs⟩
  have hstored : ∀ b p, s'.Sends b p → (s'.db.outboxBatches.get? b).isSome →
      s'.db.batchPayload b = p := by
    intro b p hp hsome
    rcases hsends b p hp with hold | ⟨-, -, hnew⟩
    · rw [batchPayload_congr hq h.positions (hentries b (hused hold) hsome)
        (hpayloads b (hused hold))]
      exact h.stored b p hold (hrow b (hused hold) hsome)
    · exact hnew
  refine ⟨fun b p q hp hp' => ?_, hstored, fun b p hp => ?_, hpositions⟩
  · rcases hsends b p hp with hold | ⟨-, hsome, hnew⟩
    · rcases hsends b q hp' with hold' | ⟨-, hsome, hnew⟩
      · exact h.agree b p q hold hold'
      · exact (hstored b p hp hsome).symm.trans hnew
    · exact hnew.symm.trans (hstored b q hp' hsome)
  · rcases hsends b p hp with hold | ⟨hlt, -⟩
    · exact (h.drawn b p hold).trans_le hn
    · exact hlt

/-- A step that keeps the messages and the outbox of the batch lane. -/
theorem BatchPayloads.of_frame {φ : Uuid → SendView Digest → SendView Digest} {s s' : System Digest}
    (h : BatchPayloads s) (hc : Coherent rt s) (hl : Later s.db s'.db) (hf : Frame φ s.db s'.db)
    (hb : s'.db.outboxBatches = s.db.outboxBatches) (he : s'.db.outboxEntries = s.db.outboxEntries)
    (hsends : ∀ b p, s'.Sends b p → s.Sends b p) : BatchPayloads s' := by
  refine h.of_step hc.queue hl.nextId_le (fun b p hp => .inl (hsends b p hp))
    (fun b _ => by rw [hb]; exact id)
    (fun b _ _ e _ => by rw [he]) (fun b _ e hmem _ => ?_) (by rw [he]; exact h.positions)
  obtain ⟨v, hv, -⟩ := hc.queue.entry e hmem
  obtain ⟨w, hw, hevolves⟩ := hl.view _ _ (hc.origins.origin _ v hv).1 (hf.view _ v hv)
  rw [hf.view _ v hv, hw, Option.map_some, Option.map_some, hevolves.payload]

/-- What a step sends that places no call under the key of a batch and claims none. -/
theorem System.sends_of_kept {s s' : System Digest}
    (hcalls : ∀ call ∈ s'.provider.calls, ∀ b, call.key = .conversationOutbox b →
      ∃ call₀ ∈ s.provider.calls, call₀.placed = call.placed)
    (hruns : ∀ pid p w, s'.Runs pid p → p.claimed = some w → ∃ p₀, s.Runs pid p₀ ∧
      p₀.claimed = some w) (b : Uuid) (p : List SendEmailInput) (h : s'.Sends b p) :
    s.Sends b p := by
  rcases h with ⟨call, hcall, hkey, hpayload⟩ | ⟨pid, q, batch, hq, hclaimed, hid, hpayload⟩
  · obtain ⟨call₀, hcall₀, hplaced⟩ := hcalls call hcall b hkey
    exact .inl ⟨call₀, hcall₀, (congrArg ProviderCall.key hplaced).trans hkey,
      (congrArg ProviderCall.payload hplaced).trans hpayload⟩
  · obtain ⟨p₀, hp₀, hclaimed₀⟩ := hruns pid q batch hq hclaimed
    exact .inr ⟨pid, p₀, batch, hp₀, hclaimed₀, hid, hpayload⟩

theorem Provider.placed_place (p : Provider) {call : ProviderCall}
    (hkey : ∀ b, call.key ≠ .conversationOutbox b) :
    ∀ c ∈ (p.place call).calls, ∀ b, c.key = .conversationOutbox b →
      ∃ c₀ ∈ p.calls, c₀.placed = c.placed := by
  intro c hc b hb
  rcases Table.mem_set.mp hc with rfl | ⟨hc, -⟩
  · exact absurd hb (hkey b)
  · exact ⟨c, hc, rfl⟩

/-! ### The steps -/

/-- A claim, by a worker that is about to call. -/
theorem BatchPayloads.of_batchClaim {s s' : System Digest} (h : BatchPayloads s)
    (hc : Coherent rt s) (hl : Later s.db s'.db) {now : Time} {loaded : LoadedBatch Digest}
    (claim : BatchClaim now s.db s'.db loaded)
    (hsends : ∀ b p, s'.Sends b p → s.Sends b p ∨
      (b = loaded.batch.id ∧ s'.db.batchPayload b = p)) :
    BatchPayloads s' := by
  have hloaded := claim.loaded_eq
  have hq := hc.queue.of_batchClaim claim
  have hid : loaded.batch.id < s'.db.nextId := by
    rw [← Table.key_of_get? hloaded.1]
    exact (hq.batch _ (Table.mem_of_get? hloaded.1)).1
  have hdrawn : ∀ b, s.used b = true → b < s.db.nextId := fun b hused => by
    obtain ⟨p, hp⟩ := System.used_iff.mp hused
    exact h.drawn b p hp
  have hnew : ∀ b p, s'.Sends b p → s.Sends b p ∨
      (b < s'.db.nextId ∧ (s'.db.outboxBatches.get? b).isSome ∧ s'.db.batchPayload b = p) := by
    intro b p hp
    rcases hsends b p hp with hold | ⟨rfl, hpayload⟩
    · exact .inl hold
    · exact .inr ⟨hid, by rw [hloaded.1]; rfl, hpayload⟩
  have hviews : ∀ b, s.used b = true → ∀ e ∈ s.db.outboxEntries, e.batchId = some b →
      (s'.db.view? e.messageId).map SendView.payload =
        (s.db.view? e.messageId).map SendView.payload := by
    intro b _ e hmem _
    obtain ⟨v, hv, -⟩ := hc.queue.entry e hmem
    rw [claim.frame.view _ v hv, hv]
  cases claim with
  | leased found ready db_eq loaded =>
      rw [hc.queue.swept_eq] at db_eq
      have he : s'.db.outboxEntries = s.db.outboxEntries := by rw [db_eq]
      refine h.of_step hc.queue hl.nextId_le hnew (fun b _ hsome => ?_)
        (fun b _ _ e _ => by rw [he]) hviews
        (by rw [he]; exact h.positions)
      rw [db_eq] at hsome
      simpa using hsome
  | @created ids table limit locked entries nonempty inserted db_eq loaded =>
      rw [hc.queue.swept_eq] at db_eq
      have he : s'.db.outboxEntries = s.db.outboxEntries.update
          (fun e => ids.contains e.messageId && e.batchId.isNone)
            (EmailOutboxEntry.assign (s.db.nextId + 1) ids) := by
        rw [db_eq]
      refine h.of_step hc.queue hl.nextId_le hnew (fun b hused hsome => ?_)
        (fun b hused _ e hb => ?_) hviews ?_
      · rw [db_eq] at hsome
        change (table.get? b).isSome at hsome
        rwa [Table.get?_of_insert? inserted, if_neg] at hsome
        exact ((hdrawn b hused).trans (Nat.lt_succ_self _)).ne'
      · have hne : b ≠ s.db.nextId + 1 := ((hdrawn b hused).trans (Nat.lt_succ_self _)).ne
        rw [he]
        constructor
        · intro hmem
          obtain ⟨f, hf, -, ⟨rfl, -⟩ | ⟨-, -, hassigned, -⟩⟩ := mem_assigned hmem
          · exact hf
          · exact absurd (Option.some.inj (hb.symm.trans hassigned)) hne
        · intro hmem
          refine Table.mem_update.mpr ⟨e, hmem, if_neg ?_⟩
          simp [hb]
      · intro e hmem hsome
        rw [he] at hmem
        obtain ⟨f, hf, -, ⟨rfl, -⟩ | ⟨-, -, -, hposition⟩⟩ := mem_assigned hmem
        · exact h.positions _ hf hsome
        · rw [hposition]
          rfl

/-- A step that deletes nothing from a used batch keeps the payloads. -/
theorem Effect.batchPayloads {s s' : System Digest} {a : Action Digest}
    (hinj : Function.Injective rt.hashSendRequest) (hc : Coherent rt s) (h : BatchPayloads s)
    (ha : KeepsBatches s a) (he : Effect rt s a s') : BatchPayloads s' := by
  have hl := (he.coherent hinj hc).2
  have hrefl : Background s.db s.db := Std.Refl.refl (r := Background) _
  have hdrawn : Background s.db { s.db with nextId := s.db.nextId + 1 } :=
    background_nextId s.db (Nat.le_succ _)
  have hidle : ∀ {p : Proc Digest}, p.sends = false → p.claimed = none := Proc.claimed_eq_none
  have hsame : ∀ call ∈ s.provider.calls, ∀ b, call.key = .conversationOutbox b →
      ∃ call₀ ∈ s.provider.calls, call₀.placed = call.placed := fun call hcall _ _ =>
        ⟨call, hcall, rfl⟩
  have hobserve : ∀ callId o, ∀ call ∈ (s.provider.observe callId o).calls, ∀ b,
      call.key = .conversationOutbox b →
      ∃ call₀ ∈ s.provider.calls, call₀.placed = call.placed := fun callId o call hcall _ _ =>
    s.provider.placed_observe callId o call hcall
  cases he with
  | quiet passive provider leases objects now retires =>
      exact h.of_frame hc hl passive.toFrame passive.batches passive.entries
        (System.sends_of_kept (fun call hcall _ _ => Provider.placed_same provider call hcall)
          (System.kept_of_retires (fun _ => hidle) fun pid p hp hs => retires pid p hp (.inl hs)))
  | filed background provider leases now retires =>
      exact h.of_frame hc hl background.toFrame background.batches background.entries
        (System.sends_of_kept (fun call hcall _ _ => Provider.placed_same provider call hcall)
          (System.kept_of_retires (fun _ => hidle) retires))
  | reached callId accepted answer provider action reach eq =>
      subst eq
      exact h.of_frame hc hl hrefl.toFrame rfl rfl
        (System.sends_of_kept (fun call hcall _ _ => Provider.placed_reach reach call hcall)
          fun pid p w hp hw => ⟨p, hp, hw⟩)
  | deleted c db' action deletion eq =>
      subst eq action
      have hkept : ∀ b, s.used b = true → ∀ e ∈ s.db.outboxEntries, e.batchId = some b →
          ∀ m, s.db.messages.get? e.messageId = some m → m.conversationId ≠ some c := by
        intro b hused e hmem hb m hm
        have hall := ha c rfl e hmem (by rw [hb]; exact hused)
        rw [hm, Option.all_some, bne_iff_ne] at hall
        exact hall
      refine h.of_step hc.queue hl.nextId_le (fun b p hp => .inl hp) (fun b _ hsome => ?_)
        (fun b hused _ e hb => ?_)
        (fun b hused e hmem hb => ?_) fun e hmem hsome => ?_
      · exact deletion.batches ▸ hsome
      · rw [deletion.entries e]
        exact ⟨And.left, fun hmem => ⟨hmem, hkept b hused e hmem hb⟩⟩
      · obtain ⟨v, hv, -⟩ := hc.queue.entry e hmem
        obtain ⟨m, hm, -⟩ := Database.view?_eq_some.mp hv
        obtain ⟨m', hm', hview, -⟩ := deletion.kept e.messageId m hm (hkept b hused e hmem hb m hm)
        rw [Database.view?_of_get? hm, Database.view?_of_get? hm', hview]
      · exact h.positions e ((deletion.entries e).mp hmem).1 hsome
  | stored pid c handler reopened db' id p action runs reopens stores next eq =>
      subst eq
      obtain ⟨⟨v, hs⟩, -⟩ := stores
      have hnone : p.claimed = none := by
        split at next
        next => exact hidle next.1
        next => rw [next]; rfl
      have hentry : ∀ e ∈ db'.outboxEntries, e.batchId.isSome → e ∈ s.db.outboxEntries := by
        intro e hmem hsome
        rcases (hs.entries e).mp hmem with hold | ⟨-, -, rfl⟩
        · exact hold
        · cases hsome
      have hsends : ∀ b q, (System.become { s with db := db' } pid p).Sends b q → s.Sends b q :=
        System.sends_of_kept hsame (System.kept_of_become rfl (.inl hnone))
      refine h.of_step hc.queue hl.nextId_le (fun b q hq => .inl (hsends b q hq))
        (fun b _ hsome => hs.batches ▸ hsome) (fun b _ _ e hb => ?_) (fun b _ e hmem hb => ?_)
          fun e hmem hsome => ?_
      · exact ⟨fun hmem => hentry e hmem (by rw [hb]; rfl),
          fun hmem => (hs.entries e).mpr (.inl hmem)⟩
      · obtain ⟨w, hw, -⟩ := hc.queue.entry e hmem
        rw [System.become_db, hs.view _ w hw, hw]
      · exact h.positions e (hentry e hmem hsome) hsome
  | engaged pid c handler m action runs found hash sync eq =>
      subst eq
      exact h.of_frame hc hl hrefl.toFrame rfl rfl (System.sends_of_kept hsame
        (System.kept_of_become rfl (.inl rfl)))
  | reopening pid c handler conversation action runs found topic eq =>
      subst eq
      exact h.of_frame hc hl hrefl.toFrame rfl rfl (System.sends_of_kept hsame
        (System.kept_of_become rfl (.inl rfl)))
  | expiring pid c handler id action runs phase eq =>
      subst eq
      exact h.of_frame hc hl hrefl.toFrame rfl rfl (System.sends_of_kept hsame
        (System.kept_of_become rfl (.inl rfl)))
  | resumed pid c handler m action runs phase found window eq =>
      subst eq
      exact h.of_frame hc hl hrefl.toFrame rfl rfl (System.sends_of_kept hsame
        (System.kept_of_become rfl (.inl rfl)))
  | prepared pid c handler d attachments action runs phase eq =>
      subst eq
      exact h.of_frame hc hl hrefl.toFrame rfl rfl (System.sends_of_kept hsame
        (System.kept_of_become rfl (.inl rfl)))
  | expired pid c handler id db' p action runs phase rewrite next eq =>
      subst eq
      exact h.of_frame hc hl rewrite.toFrame rewrite.batches rewrite.entries
        (System.sends_of_kept hsame (System.kept_of_become rfl (.inl (hidle next.1))))
  | called pid c handler d attachments m action runs phase free found pending eq =>
      subst eq
      have hkey : ∀ b, (syncCall s d m attachments).key ≠ .conversationOutbox b := by
        intro b
        show singleSendKey m ≠ _
        unfold singleSendKey
        split <;> simp
      exact h.of_frame hc hl hdrawn.toFrame rfl rfl
        (System.sends_of_kept (Provider.placed_place _ hkey) (System.kept_of_become rfl (.inl rfl)))
  | refused pid c handler d attachments m error db' p action runs phase free found pending cause
      rewrite next eq =>
      subst eq
      exact h.of_frame hc hl rewrite.toFrame rewrite.batches rewrite.entries
        (System.sends_of_kept hsame (System.kept_of_become rfl (.inl (hidle next.1))))
  | settled pid c handler d m callId observation db' p action runs phase waits observed
      rewrite next eq =>
      subst eq
      have hsends := @System.sends_of_kept _ s
        (System.become { s.observe callId observation with db := db' } pid p) (hobserve _ _)
        (System.kept_of_become rfl (.inl (hidle next.1)))
      rcases rewrite with rfl | rewrite
      · exact h.of_frame hc hl hrefl.toFrame rfl rfl hsends
      · exact h.of_frame hc hl rewrite.toFrame rewrite.batches rewrite.entries hsends
  | batchSwept pid p next eq =>
      subst eq
      have hb : Background s.db (swept s.db) := by
        rw [hc.queue.swept_eq]
        exact hdrawn
      exact h.of_frame hc hl hb.toFrame hb.batches hb.entries (System.sends_of_kept hsame
        (System.kept_of_become rfl (.inl (hidle next.1))))
  | batchClaimed pid c loaded db' p claim free next eq =>
      subst eq
      have hq := hc.queue.of_batchClaim claim
      obtain ⟨batch, hcheck, hid, -, -, -, hm⟩ := hq.checkClaim_eq_ok s.db.nextId claim.loaded_eq
      rw [hcheck] at next
      refine h.of_batchClaim hc hl claim fun b q hq => ?_
      rcases hq with
        ⟨call, hcall, hkey, hpayload⟩ | ⟨pid', p', batch', hruns, hclaimed, hid', hpayload⟩
      · exact .inl (.inl ⟨call, hcall, hkey, hpayload⟩)
      · rcases System.runs_become.mp hruns with ⟨rfl, rfl⟩ | ⟨-, hold⟩
        · rw [next] at hclaimed
          obtain rfl := Option.some.inj hclaimed
          refine .inr ⟨hid'.symm.trans hid, ?_⟩
          rw [← hpayload, ← hid', hid]
          exact (claim.loaded_eq.payload hm).symm
        · exact .inl (.inr ⟨pid', p', batch', hold, hclaimed, hid', hpayload⟩)
  | batchSkipped pid c batch claimedAt decision action runs decided eq =>
      subst eq
      exact h.of_frame hc hl hrefl.toFrame rfl rfl (System.sends_of_kept hsame
        (System.kept_of_become rfl (.inl rfl)))
  | batchCalled pid c batch claimedAt action runs window eq =>
      subst eq
      refine h.of_frame hc hl hdrawn.toFrame rfl rfl fun b p hp => ?_
      have hworker : s.Sends batch.id batch.payload :=
        .inr ⟨pid, _, batch, runs, rfl, rfl, rfl⟩
      rcases hp with ⟨call, hcall, hkey, hpayload⟩ | ⟨q, p', w, hq, hclaimed, hid, hpayload⟩
      · rcases Table.mem_set.mp hcall with rfl | ⟨hcall, -⟩
        · cases hkey
          rw [← hpayload]
          exact hworker
        · exact .inl ⟨call, hcall, hkey, hpayload⟩
      · obtain ⟨p₀, hp₀, hclaimed₀⟩ :=
          @System.kept_of_become _ _ Proc.claimed s _ _ _ rfl (.inl rfl) q p' w hq hclaimed
        exact .inr ⟨q, p₀, w, hp₀, hclaimed₀, hid, hpayload⟩
  | batchObserved pid c batch callId observation action runs observed eq =>
      subst eq
      exact h.of_frame hc hl hrefl.toFrame rfl rfl (System.sends_of_kept (hobserve _ _)
        (System.kept_of_become rfl (.inl rfl)))
  | batchFinalized pid c batch decision db' p action runs finalized next eq =>
      subst eq
      have hsends : ∀ b q, (System.become { s with db := db' } pid p).Sends b q → s.Sends b q :=
        System.sends_of_kept hsame (System.kept_of_become rfl (.inl (hidle next.1)))
      -- the finalized batch is gone, and the entries of the others stay
      have hother : ∀ b, (db'.outboxBatches.get? b).isSome → b ≠ batch.id ∧
          (s.db.outboxBatches.get? b).isSome := by
        intro b hsome
        obtain ⟨row, hrow⟩ := Option.isSome_iff_exists.mp hsome
        rw [finalized.batches, Table.get?_delete, Option.filter_eq_some_iff] at hrow
        refine ⟨?_, by rw [hrow.1]; rfl⟩
        rintro rfl
        obtain ⟨r, hr, howned⟩ := finalized.owned
        have hkey := (ClaimedBatch.owned_iff.mp howned).1
        have hsame : row = r :=
          Table.key_inj (Table.mem_of_get? hrow.1) hr ((Table.key_of_get? hrow.1).trans hkey.symm)
        rw [hsame, howned] at hrow
        cases hrow.2
      refine h.of_step hc.queue hl.nextId_le (fun b q hq => .inl (hsends b q hq))
        (fun b _ hsome => (hother b hsome).2)
        (fun b _ hsome e hb => ?_) (fun b _ e hmem _ => ?_) fun e hmem hsome => ?_
      · have hkeep : (e.batchId == some batch.id) = false := by simp [hb, (hother b hsome).1]
        rw [System.become_db, finalized.entries, Table.mem_delete, hkeep]
        exact ⟨And.left, fun hmem => ⟨hmem, rfl⟩⟩
      · obtain ⟨v, hv, -⟩ := hc.queue.entry e hmem
        have hevolves : v.Evolves (decision.apply batch e.messageId v) :=
          BatchDecision.evolves_apply finalized.terminal e.messageId v
        rw [System.become_db, finalized.view _ v hv, hv, Option.map_some, Option.map_some,
          hevolves.payload]
      · rw [System.become_db, finalized.entries, Table.mem_delete] at hmem
        exact h.positions e hmem.1 hsome
  | batchRescheduled pid c batch decision db' p action runs rescheduled next eq =>
      subst eq
      have hsends : ∀ b q, (System.become { s with db := db' } pid p).Sends b q → s.Sends b q :=
        System.sends_of_kept hsame (System.kept_of_become rfl (.inl (hidle next.1)))
      have hviews := rescheduled.frame.view
      obtain ⟨now, errorCode, rfl⟩ := rescheduled.db_eq
      refine h.of_step hc.queue hl.nextId_le (fun b q hq => .inl (hsends b q hq))
        (fun b _ hsome => by simpa using hsome)
        (fun b _ _ e _ => Iff.rfl) (fun b _ e hmem _ => ?_) h.positions
      obtain ⟨v, hv, -⟩ := hc.queue.entry e hmem
      rw [System.become_db, hviews _ v hv, hv]
  | entrySwept pid p next eq =>
      subst eq
      have hb : Background s.db (sweptAttachments s.db) := by
        rw [hc.queue.sweptAttachments_eq]
        exact hdrawn
      exact h.of_frame hc hl hb.toFrame hb.batches hb.entries (System.sends_of_kept hsame
        (System.kept_of_become rfl (.inl (hidle next.1))))
  | entryClaimed pid c remaining result entry e db' action runs claim eq =>
      subst eq
      exact h.of_frame hc hl claim.frame claim.batches claim.entries (System.sends_of_kept hsame
        (System.kept_of_become rfl (.inl rfl)))
  | entrySkipped pid c remaining result entry claimedAt decision action runs decided eq =>
      subst eq
      exact h.of_frame hc hl hrefl.toFrame rfl rfl (System.sends_of_kept hsame
        (System.kept_of_become rfl (.inl rfl)))
  | entryCalled pid c remaining result entry claimedAt attachments action runs window eq =>
      subst eq
      have hkey : ∀ b, (entryCall s entry claimedAt attachments).key ≠ .conversationOutbox b := by
        intro b hb
        cases hb
      exact h.of_frame hc hl hdrawn.toFrame rfl rfl
        (System.sends_of_kept (Provider.placed_place _ hkey) (System.kept_of_become rfl (.inl rfl)))
  | entryObserved pid c remaining result entry callId observation action runs observed eq =>
      subst eq
      exact h.of_frame hc hl hrefl.toFrame rfl rfl (System.sends_of_kept (hobserve _ _)
        (System.kept_of_become rfl (.inl rfl)))
  | entryFinalized pid c remaining result entry decision db' p action runs finalized next eq =>
      subst eq
      exact h.of_frame hc hl finalized.toFrame finalized.batches finalized.entries
        (System.sends_of_kept hsame (System.kept_of_become rfl (.inl (hidle next.1))))
  | entryRescheduled pid c remaining result entry decision db' p action runs rescheduled next eq =>
      subst eq
      exact h.of_frame hc hl rescheduled.frame rescheduled.batches rescheduled.entries
        (System.sends_of_kept hsame (System.kept_of_become rfl (.inl (hidle next.1))))
  | entryRedecided pid c remaining result entry decision name message action runs eq =>
      subst eq
      exact h.of_frame hc hl hrefl.toFrame rfl rfl (System.sends_of_kept hsame
        (System.kept_of_become rfl (.inl rfl)))

/-! ### Runs -/

/-- In every run that deletes nothing from a used batch, all calls under the key of the batch carry
the same ordered list of payloads. -/
theorem Run.batch_payload [DecidableEq Digest] (hinj : Function.Injective rt.hashSendRequest)
    {config : Config} {now : Time} {s : System Digest}
    (hrun : Run (step rt) KeepsBatches (.initial config now) s) {b : Uuid}
    {call call' : ProviderCall} (hcall : call ∈ s.provider.calls)
    (hcall' : call' ∈ s.provider.calls) (hkey : call.key = .conversationOutbox b)
    (hkey' : call'.key = .conversationOutbox b) :
    call.payload = call'.payload := by
  have hinvariant : Coherent rt s ∧ BatchPayloads s :=
    hrun.invariant (I := fun s => Coherent rt s ∧ BatchPayloads s)
      ⟨coherent_initial config now, batchPayloads_initial config now⟩ fun t a u ht hok hstep =>
        ⟨(ht.1.next hinj hstep).1, (step_effect hstep).batchPayloads hinj ht.1 ht.2 hok⟩
  exact hinvariant.2.agree b _ _ (.inl ⟨call, hcall, hkey, rfl⟩) (.inl ⟨call', hcall', hkey', rfl⟩)

namespace Reference

/-- A batch of an opening and a direct email whose first call is lost. -/
def lostBatch : List (Action SendRequest) :=
  grants ++ submit 0 (opening true (js "x")) (js "k") ++ submit 2 (direct true (js "s")) (js "l") ++
    [.start 1 (.batchDrain 10) {}, .run 1 {}, .run 1 { lost := some (js "TimeoutError", []) },
      .run 1 {}]

/-- The next attempt on the batch. -/
def nextAttempt : List (Action SendRequest) :=
  [.tick 60000, .start 3 (.batchDrain 10) {}, .run 3 {}]

/-- Two calls under the key of one batch, and whether their payloads differ. -/
def callsTwice (differ : Bool) (s : System SendRequest) : Bool :=
  s.provider.calls.rows.any fun call => s.provider.calls.rows.any fun call' =>
    call.id != call'.id && decide (∃ b ∈ List.range 20, call.key = .conversationOutbox b ∧
      call'.key = .conversationOutbox b) && (call.payload != call'.payload) == differ

theorem callsTwice_spec {differ : Bool} {s : System SendRequest} (h : callsTwice differ s = true) :
    ∃ b, ∃ call ∈ s.provider.calls, ∃ call' ∈ s.provider.calls, call.id ≠ call'.id ∧
      call.key = .conversationOutbox b ∧ call'.key = .conversationOutbox b ∧
      (differ = true → call.payload ≠ call'.payload) := by
  rw [callsTwice, List.any_eq_true] at h
  obtain ⟨call, hcall, h⟩ := h
  rw [List.any_eq_true] at h
  obtain ⟨call', hcall', h⟩ := h
  rw [Bool.and_eq_true, Bool.and_eq_true, bne_iff_ne, decide_eq_true_eq, beq_iff_eq] at h
  obtain ⟨⟨hne, b, -, hkey, hkey'⟩, hdiffer⟩ := h
  refine ⟨b, call, hcall, call', hcall', hne, hkey, hkey', fun htrue => ?_⟩
  rw [htrue, bne_iff_ne] at hdiffer
  exact hdiffer

end Reference

/-- The deletion of a conversation between two attempts drops its email from the second one. -/
theorem batch_payload_changes : ∃ s, Reachable .reference s ∧ ∃ b, ∃ call ∈ s.provider.calls,
    ∃ call' ∈ s.provider.calls, call.key = .conversationOutbox b ∧
      call'.key = .conversationOutbox b ∧ call.payload ≠ call'.payload := by
  obtain ⟨s, hrun, htwice⟩ : ∃ s, Run (step .reference) Always .reference s ∧
      Reference.callsTwice true s = true :=
    Run.exists_of_exec
      (Reference.lostBatch ++ .operator (.deleteConversation 0) :: Reference.nextAttempt)
      (by decide +kernel)
  obtain ⟨b, call, hcall, call', hcall', -, hkey, hkey', hdiffer⟩ :=
    Reference.callsTwice_spec htwice
  exact ⟨s, .of_run hrun, b, call, hcall, call', hcall', hkey, hkey', hdiffer rfl⟩

/-- A batch that is called twice. -/
theorem batch_payload_reference : ∃ s : System SendRequest, ∃ call ∈ s.provider.calls,
    ∃ call' ∈ s.provider.calls, call.id ≠ call'.id ∧ call.key = call'.key ∧
      call.payload = call'.payload := by
  obtain ⟨s, hrun, htwice⟩ : ∃ s, Run (step .reference) KeepsBatches .reference s ∧
      Reference.callsTwice false s = true :=
    Run.exists_of_exec (Reference.lostBatch ++ Reference.nextAttempt) (by decide +kernel)
  obtain ⟨b, call, hcall, call', hcall', hne, hkey, hkey', -⟩ := Reference.callsTwice_spec htwice
  exact ⟨s, call, hcall, call', hcall', hne, hkey.trans hkey'.symm,
    Run.batch_payload Runtime.reference_injective hrun hcall hcall' hkey hkey'⟩

end ResendConversation
