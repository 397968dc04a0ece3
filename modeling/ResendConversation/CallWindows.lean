import ResendConversation.KeyUses

/-! # Windows of the provider calls

A worker measures the idempotency window of its key from the time at which the row of the key was
first attempted, and it checks the window before every attempt but the first.  So a call is placed
after the start of its window, and the check before it was made within 23 hours of that start. -/

namespace ResendConversation

open Foundation Tx

variable {Digest : Type} {rt : Runtime Digest}

/-! ### Rows -/

/-- No window starts in the future. -/
structure Database.Past (db : Database Digest) (now : Time) : Prop where
  views : ∀ id v, db.view? id = some v → v.requestHash.isSome → v.createdAt ≤ now
  attachmentEntries : ∀ e ∈ db.attachmentOutboxEntries, ∀ w, e.firstAttemptAt = some w → w ≤ now
  batches : ∀ r ∈ db.outboxBatches, ∀ w, r.firstAttemptAt = some w → w ≤ now

theorem Database.Past.of_step {db db' : Database Digest} {now now' : Time} (h : db.Past now)
    (ho : Origins rt db) (hl : Later db db') (hnow : now ≤ now')
    (hfresh : ∀ id v, db'.view? id = some v → db.view? id = none → v.requestHash.isSome →
      v.createdAt ≤ now')
    (hentries : ∀ e' ∈ db'.attachmentOutboxEntries, ∀ w, e'.firstAttemptAt = some w →
      w ≤ now' ∨ ∃ e ∈ db.attachmentOutboxEntries, e.firstAttemptAt = some w)
    (hbatches : ∀ r' ∈ db'.outboxBatches, ∀ w, r'.firstAttemptAt = some w →
      w ≤ now' ∨ ∃ r ∈ db.outboxBatches, r.firstAttemptAt = some w) : db'.Past now' where
  views := by
    intro id v' hv' hsome
    cases hv : db.view? id with
    | none => exact hfresh id v' hv' hv hsome
    | some v =>
        obtain ⟨u, hu, hevolves⟩ := hl.view id v' (ho.origin id v hv).1 hv'
        rw [hevolves.requestHash] at hsome
        rw [hevolves.createdAt]
        exact (h.views id u hu hsome).trans hnow
  attachmentEntries := by
    intro e' he' w hw
    rcases hentries e' he' w hw with hle | ⟨e, he, hfirst⟩
    · exact hle
    · exact (h.attachmentEntries e he w hfirst).trans hnow
  batches := by
    intro r' hr' w hw
    rcases hbatches r' hr' w hw with hle | ⟨r, hr, hfirst⟩
    · exact hle
    · exact (h.batches r hr w hfirst).trans hnow

/-- Nothing that a frame adds is queued. -/
theorem Frame.fresh_unhashed {φ : Uuid → SendView Digest → SendView Digest}
    {db db' : Database Digest} (hf : Frame φ db db') {now : Time} :
    ∀ id v, db'.view? id = some v → db.view? id = none → v.requestHash.isSome →
      v.createdAt ≤ now := by
  intro id v hv hnone hsome
  obtain ⟨-, -, hin⟩ := hf.fresh id v hv hnone
  rw [hin.requestHash] at hsome
  cases hsome

/-- A step that keeps the rows of the lanes. -/
theorem Database.Past.of_frame {φ : Uuid → SendView Digest → SendView Digest}
    {db db' : Database Digest} {now now' : Time} (h : db.Past now) (ho : Origins rt db)
    (hl : Later db db') (hnow : now ≤ now') (hf : Frame φ db db')
    (hb : db'.outboxBatches = db.outboxBatches)
    (ha : db'.attachmentOutboxEntries = db.attachmentOutboxEntries) : db'.Past now' :=
  h.of_step ho hl hnow hf.fresh_unhashed (fun e he _ hw => .inr ⟨e, ha ▸ he, hw⟩)
    fun r hr _ hw => .inr ⟨r, hb ▸ hr, hw⟩

theorem Database.Past.of_stored {ctx : SendContext Digest} {db db' : Database Digest} {id : Uuid}
    {v : SendView Digest} {now : Time} (h : db.Past now) (ho : Origins rt db)
    (hs : Stored ctx db db' id v) (hcreated : ctx.createdAt ≤ now) : db'.Past now := by
  refine h.of_step ho (.of_stored hs) le_rfl (fun k _ hw hnone hsome => ?_) (fun e he _ hw => ?_)
    fun r hr w hw => ?_
  · rcases hs.fresh k _ hw hnone with rfl | ⟨-, -, hin⟩
    · obtain rfl := Option.some.inj (hs.stored.symm.trans hw)
      rw [hs.intended.createdAt]
      exact hcreated
    · rw [hin.requestHash] at hsome
      cases hsome
  · rcases (hs.attachmentEntries e).mp he with hold | ⟨-, -, rfl⟩
    · exact .inr ⟨e, hold, hw⟩
    · cases hw
  · exact .inr ⟨r, hs.batches ▸ hr, hw⟩

theorem Database.Past.of_deleted {c : Uuid} {db db' : Database Digest} {now : Time}
    (h : db.Past now) (ho : Origins rt db) (hd : ConversationDeleted c db db') : db'.Past now := by
  refine h.of_step ho (.of_deleted hd) le_rfl (fun id v hv hnone hsome => ?_) (fun e he w hw => ?_)
    fun r hr w hw => ?_
  · obtain ⟨m, hm, -, rfl⟩ := hd.view_of_view hv
    rw [Database.view?_of_get? hm] at hnone
    cases hnone
  · exact .inr ⟨e, ((hd.attachmentEntries e).mp he).1, hw⟩
  · exact .inr ⟨r, hd.batches ▸ hr, hw⟩

theorem Database.Past.of_batchClaim {db db' : Database Digest} {now readAt : Time}
    {loaded : LoadedBatch Digest} (h : db.Past now) (ho : Origins rt db) (hq : Queue rt db)
    (hread : readAt ≤ now) (hc : BatchClaim readAt db db' loaded) : db'.Past now := by
  have hframe := hc.frame
  have hl := Later.of_frame hframe fun _ v _ => .refl v
  cases hc with
  | @leased b found ready db_eq loaded =>
      subst db_eq
      rw [hq.swept_eq] at hframe hl ⊢
      refine h.of_step ho hl le_rfl hframe.fresh_unhashed (fun e he w hw => .inr ⟨e, he, hw⟩)
        fun r' hr' w hw => ?_
      dsimp only at hr'
      rw [Table.mem_update] at hr'
      obtain ⟨r, hr, rfl⟩ := hr'
      split at hw
      · exact .inr ⟨r, hr, hw⟩
      · exact .inr ⟨r, hr, hw⟩
  | @created ids table limit locked entries nonempty inserted db_eq loaded =>
      subst db_eq
      rw [hq.swept_eq] at hframe hl ⊢
      refine h.of_step ho hl le_rfl hframe.fresh_unhashed (fun e he w hw => .inr ⟨e, he, hw⟩)
        fun r hr w hw => ?_
      rcases (Table.mem_insert? inserted).mp hr with hold | rfl
      · exact .inr ⟨r, hold, hw⟩
      · obtain rfl := Option.some.inj hw
        exact .inl hread

theorem Database.Past.of_batchFinalized {batch : ClaimedBatch Digest} {decision : BatchDecision}
    {db db' : Database Digest} {now : Time} (h : db.Past now) (ho : Origins rt db)
    (hl : Later db db') (hf : BatchFinalized batch decision db db') : db'.Past now := by
  refine h.of_step ho hl le_rfl hf.toFrame.fresh_unhashed (fun e he w hw => ?_) fun r hr w hw => ?_
  · exact .inr ⟨e, hf.attachmentEntries ▸ he, hw⟩
  · rw [hf.batches, Table.mem_delete] at hr
    exact .inr ⟨r, hr.1, hw⟩

theorem Database.Past.of_batchRescheduled {batch : ClaimedBatch Digest} {db db' : Database Digest}
    {now : Time} (h : db.Past now) (ho : Origins rt db) (hl : Later db db')
    (hr : BatchRescheduled batch db db') :
    db'.Past now := by
  have hframe := hr.frame
  obtain ⟨at_, errorCode, rfl⟩ := hr.db_eq
  refine h.of_step ho hl le_rfl hframe.fresh_unhashed (fun e he w hw => .inr ⟨e, he, hw⟩)
    fun r' hr' w hw => ?_
  dsimp only at hr'
  rw [Table.mem_update] at hr'
  obtain ⟨r, hr, rfl⟩ := hr'
  split at hw
  · exact .inr ⟨r, hr, hw⟩
  · exact .inr ⟨r, hr, hw⟩

theorem Database.Past.of_entryClaim {db db' : Database Digest} {now readAt : Time}
    {entry : ClaimedEntry Digest} {e : EmailAttachmentOutboxEntry} (h : db.Past now)
    (ho : Origins rt db) (hq : Queue rt db) (hread : readAt ≤ now)
    (hc : EntryClaim readAt db db' entry e) : db'.Past now := by
  have hframe := hc.frame
  have hl := Later.of_frame hframe fun _ v _ => .refl v
  refine h.of_step ho hl le_rfl hframe.fresh_unhashed (fun r' hr' w hw => ?_) fun r hr w hw => ?_
  · rw [hc.db_eq, hq.sweptAttachments_eq] at hr'
    dsimp only at hr'
    rw [Table.mem_update] at hr'
    obtain ⟨r, hr, rfl⟩ := hr'
    split at hw
    · cases hfirst : r.firstAttemptAt with
      | none =>
          rw [EmailAttachmentOutboxEntry.lease, hfirst] at hw
          obtain rfl := Option.some.inj hw
          exact .inl hread
      | some w' =>
          rw [EmailAttachmentOutboxEntry.lease, hfirst] at hw
          obtain rfl := Option.some.inj hw
          exact .inr ⟨r, hr, hfirst⟩
    · exact .inr ⟨r, hr, hw⟩
  · exact .inr ⟨r, hc.batches ▸ hr, hw⟩

theorem Database.Past.of_entryFinalized {entry : ClaimedEntry Digest} {decision : EntryDecision}
    {db db' : Database Digest} {now : Time} (h : db.Past now) (ho : Origins rt db)
    (hl : Later db db') (hf : EntryFinalized entry decision db db') : db'.Past now := by
  refine h.of_step ho hl le_rfl hf.toFrame.fresh_unhashed (fun e he w hw => ?_) fun r hr w hw => ?_
  · rw [hf.attachmentEntries, Table.mem_delete] at he
    exact .inr ⟨e, he.1, hw⟩
  · exact .inr ⟨r, hf.batches ▸ hr, hw⟩

theorem Database.Past.of_entryRescheduled {entry : ClaimedEntry Digest} {db db' : Database Digest}
    {now : Time} (h : db.Past now) (ho : Origins rt db) (hl : Later db db')
    (hr : EntryRescheduled entry db db') :
    db'.Past now := by
  have hframe := hr.frame
  obtain ⟨at_, errorCode, rfl⟩ := hr.db_eq
  refine h.of_step ho hl le_rfl hframe.fresh_unhashed (fun e' he' w hw => ?_) fun r hr w hw =>
    .inr ⟨r, hr, hw⟩
  dsimp only at he'
  rw [Table.mem_update] at he'
  obtain ⟨e, he, rfl⟩ := he'
  split at hw
  · exact .inr ⟨e, he, hw⟩
  · exact .inr ⟨e, he, hw⟩

/-! ### Windows -/

/-- A claim that is about to call: the times of the claim and of the first attempt, and the number
of attempts. -/
structure WindowClaim where
  claimedAt : Time
  firstAttemptAt : Time
  attemptCount : ℕ

/-- A first attempt was claimed when its window started. -/
structure WindowClaim.Started (c : WindowClaim) (now : Time) : Prop where
  started : c.firstAttemptAt ≤ now
  first : c.attemptCount ≤ 1 → c.claimedAt = c.firstAttemptAt

/-- The call was placed after the start of its window, and the check before it within 23 hours. -/
structure ProviderCall.InWindow (call : ProviderCall) (now : Time) : Prop where
  started : call.windowStart ≤ now
  checked : call.checkedAt < call.windowStart + providerIdempotencySafetyMs

theorem ProviderCall.InWindow.of_placed {call call₀ : ProviderCall} {now now' : Time}
    (h : call₀.InWindow now) (hplaced : call₀.placed = call.placed) (hnow : now ≤ now') :
    call.InWindow now' := by
  constructor
  · change call.placed.windowStart ≤ now'
    rw [← hplaced]
    exact h.started.trans hnow
  · change call.placed.checkedAt < call.placed.windowStart + providerIdempotencySafetyMs
    rw [← hplaced]
    exact h.checked

theorem lt_of_not_expired {now firstAttemptAt : Time}
    (h : hasProviderWindowExpired now firstAttemptAt = false) :
    now < firstAttemptAt + providerIdempotencySafetyMs := by
  rw [hasProviderWindowExpired, decide_eq_false_iff_not, not_le] at h
  exact Int.lt_add_of_sub_left_lt h

/-- The check of a worker that calls. -/
theorem WindowClaim.Started.checked {c : WindowClaim} {now : Time} (h : c.Started now)
    (hwindow : ¬(1 < c.attemptCount ∧ hasProviderWindowExpired now c.firstAttemptAt = true)) :
    (if 1 < c.attemptCount then now else c.claimedAt) <
      c.firstAttemptAt + providerIdempotencySafetyMs := by
  split
  next hcount =>
    refine lt_of_not_expired ?_
    simpa [hcount] using hwindow
  next hcount =>
    rw [h.first (Nat.not_lt.mp hcount)]
    exact Int.lt_add_of_pos_right _ (by decide)

/-- The claim of a worker that is about to call. -/
def Proc.windowClaim : Proc Digest → Option WindowClaim
  | .batchDrain (.working batch (.claimed claimedAt)) =>
      some ⟨claimedAt, batch.firstAttemptAt, batch.attemptCount⟩
  | .entryDrain (.working _ _ entry (.claimed claimedAt)) =>
      some ⟨claimedAt, entry.firstAttemptAt, entry.attemptCount⟩
  | _ => none

/-- The delivery of a handler that is about to call. -/
def Proc.delivery : Proc Digest → Option Delivery
  | .send h =>
      match h.phase with
      | .deliver d .prepare => some d
      | .deliver d (.lock _) => some d
      | _ => none
  | _ => none

theorem Proc.delivers_of_delivery {p : Proc Digest} {d : Delivery} (h : p.delivery = some d) :
    ∃ request, p.delivers = some (request, d.messageId) := by
  cases p with
  | send handler =>
      simp only [delivery] at h
      split at h
      next d' hphase =>
        obtain rfl := Option.some.inj h
        exact ⟨handler.request, by simp [delivers, hphase]⟩
      next d' attachments hphase =>
        obtain rfl := Option.some.inj h
        exact ⟨handler.request, by simp [delivers, hphase]⟩
      next => cases h
  | _ => cases h

theorem Proc.delivery_eq_none {p : Proc Digest} (h : p.sends = false) : p.delivery = none := by
  cases hd : p.delivery with
  | none => rfl
  | some d =>
      obtain ⟨request, hdelivers⟩ := delivers_of_delivery hd
      simp [sends, hdelivers] at h

theorem Proc.windowClaim_eq_none {p : Proc Digest} (h : p.sends = false) :
    p.windowClaim = none := by
  cases p with
  | batchDrain w =>
      cases w with
      | working batch phase => simp [sends, Proc.batch] at h
      | returned result => rfl
  | entryDrain w =>
      cases w with
      | idle remaining result => rfl
      | working remaining result entry phase => simp [sends, Proc.entry] at h
      | returned result => rfl
  | _ => rfl

/-- What a process that is about to call knows of its window. -/
structure Proc.InWindow (db : Database Digest) (now : Time) (p : Proc Digest) : Prop where
  claim : ∀ c, p.windowClaim = some c → c.Started now
  delivery : ∀ d, p.delivery = some d → ∀ v, db.view? d.messageId = some v →
    d.checkedAt < v.createdAt + providerIdempotencySafetyMs

theorem Proc.InWindow.of_none {db : Database Digest} {now : Time} {p : Proc Digest}
    (hc : p.windowClaim = none) (hd : p.delivery = none) : p.InWindow db now where
  claim := fun c h => by
    rw [hc] at h
    cases h
  delivery := fun d h => by
    rw [hd] at h
    cases h

theorem Proc.InWindow.of_idle {db : Database Digest} {now : Time} {p : Proc Digest}
    (h : p.sends = false) :
    p.InWindow db now :=
  .of_none (windowClaim_eq_none h) (delivery_eq_none h)

theorem Proc.InWindow.later {db db' : Database Digest} {now now' : Time} {p : Proc Digest}
    (h : p.InWindow db now) (hfits : p.Fits rt db) (hl : Later db db') (hnow : now ≤ now') :
    p.InWindow db' now' where
  claim := fun c hc => ⟨(h.claim c hc).started.trans hnow, (h.claim c hc).first⟩
  delivery := by
    intro d hd v' hv'
    obtain ⟨request, hdelivers⟩ := delivers_of_delivery hd
    obtain ⟨v, hv, hevolves⟩ := hl.view d.messageId v' (hfits.delivers _ _ hdelivers).1 hv'
    rw [hevolves.createdAt]
    exact h.delivery d hd v hv

/-! ### The invariant -/

structure CallsInWindow (s : System Digest) : Prop where
  rows : s.db.Past s.now
  procs : ∀ pid p, s.Runs pid p → p.InWindow s.db s.now
  calls : ∀ call ∈ s.provider.calls, call.InWindow s.now

theorem callsInWindow_initial (config : Config) (now : Time) :
    CallsInWindow (System.initial config now : System Digest) := by
  refine ⟨⟨?_, ?_, ?_⟩, ?_, ?_⟩
  all_goals simp [System.initial, System.Runs, Database.initial, Database.view?, Provider.initial,
    Table.mem_def, Table.empty, Table.get?]

theorem CallsInWindow.of_step {s s' : System Digest} (h : CallsInWindow s) (hc : Coherent rt s)
    (hl : Later s.db s'.db) (hnow : s.now ≤ s'.now) (hrows : s'.db.Past s'.now)
    (hruns : ∀ pid p, s'.Runs pid p → s.Runs pid p ∨ p.InWindow s'.db s'.now)
    (hcalls : ∀ call ∈ s'.provider.calls,
      (∃ call₀ ∈ s.provider.calls, call₀.placed = call.placed) ∨ call.InWindow s'.now) :
        CallsInWindow s' where
  rows := hrows
  procs := fun pid p hp => (hruns pid p hp).elim
    (fun hold => (h.procs pid p hold).later (hc.fits pid p hold) hl hnow) id
  calls := by
    intro call hcall
    rcases hcalls call hcall with ⟨call₀, hcall₀, hplaced⟩ | hnew
    · exact (h.calls call₀ hcall₀).of_placed hplaced hnow
    · exact hnew

/-- The calls after one was placed. -/
theorem System.calls_call {s : System Digest} {call : ProviderCall} {now : Time}
    (hwindow : call.InWindow now) :
    ∀ c ∈ (s.call call).provider.calls,
      (∃ c₀ ∈ s.provider.calls, c₀.placed = c.placed) ∨ c.InWindow now := by
  intro c hc
  rcases Table.mem_set.mp hc with rfl | ⟨hc, -⟩
  · exact .inr hwindow
  · exact .inl ⟨c, hc, rfl⟩

/-- The rows after a step. -/
theorem Effect.past [DecidableEq Digest] {s s' : System Digest} {a : Action Digest}
    (hinj : Function.Injective rt.hashSendRequest) (hc : Coherent rt s) (h : s.db.Past s.now)
    (he : Effect rt s a s') : s'.db.Past s'.now := by
  have hl := (he.coherent hinj hc).2
  have ho := hc.origins
  have hdrawn : ∀ {n : Uuid}, s.db.nextId ≤ n →
    Database.Past { s.db with nextId := n } s.now := fun hn =>
    h.of_frame ho (.of_frame (background_nextId s.db hn).toFrame fun _ v _ => .refl v) le_rfl
      (background_nextId s.db hn).toFrame rfl rfl
  cases he with
  | quiet passive provider leases objects now retires =>
      exact h.of_frame ho hl now passive.toFrame passive.batches passive.attachmentEntries
  | filed background provider leases now retires =>
      exact h.of_frame ho hl now.ge background.toFrame background.batches
        background.attachmentEntries
  | deleted c db' action deletion eq =>
      subst eq
      exact h.of_deleted ho deletion
  | stored pid c handler reopened db' id p action runs reopens stores next eq =>
      obtain ⟨⟨v, hs⟩, -⟩ := stores
      subst eq
      exact h.of_stored ho hs (s.clock_le c.createdAt)
  | expired pid c handler id db' p action runs phase rewrite next eq =>
      subst eq
      exact h.of_frame ho hl le_rfl rewrite.toFrame rewrite.batches rewrite.attachmentEntries
  | called pid c handler d attachments m action runs phase free found pending eq =>
      subst eq
      exact hdrawn (Nat.le_succ _)
  | refused pid c handler d attachments m error db' p action runs phase free found pending cause
      rewrite next eq =>
      subst eq
      exact h.of_frame ho hl le_rfl rewrite.toFrame rewrite.batches rewrite.attachmentEntries
  | settled pid c handler d m callId observation db' p action runs phase waits observed
      rewrite next eq =>
      subst eq
      rcases rewrite with rfl | rewrite
      · exact h
      · exact h.of_frame ho hl le_rfl rewrite.toFrame rewrite.batches rewrite.attachmentEntries
  | batchSwept pid p next eq =>
      subst eq
      rw [System.become_db, hc.queue.swept_eq]
      exact hdrawn (Nat.le_succ _)
  | batchClaimed pid c loaded db' p claim free next eq =>
      subst eq
      exact h.of_batchClaim ho hc.queue (s.clock_le c.readAt) claim
  | batchCalled pid c batch claimedAt action runs window eq =>
      subst eq
      exact hdrawn (Nat.le_succ _)
  | batchFinalized pid c batch decision db' p action runs finalized next eq =>
      subst eq
      exact h.of_batchFinalized ho hl finalized
  | batchRescheduled pid c batch decision db' p action runs rescheduled next eq =>
      subst eq
      exact h.of_batchRescheduled ho hl rescheduled
  | entrySwept pid p next eq =>
      subst eq
      rw [System.become_db, hc.queue.sweptAttachments_eq]
      exact hdrawn (Nat.le_succ _)
  | entryClaimed pid c remaining result entry e db' action runs claim eq =>
      subst eq
      exact h.of_entryClaim ho hc.queue (s.clock_le c.readAt) claim
  | entryCalled pid c remaining result entry claimedAt attachments action runs window eq =>
      subst eq
      exact hdrawn (Nat.le_succ _)
  | entryFinalized pid c remaining result entry decision db' p action runs finalized next eq =>
      subst eq
      exact h.of_entryFinalized ho hl finalized
  | entryRescheduled pid c remaining result entry decision db' p action runs rescheduled next eq =>
      subst eq
      exact h.of_entryRescheduled ho hl rescheduled
  | _ =>
      next eq =>
        subst eq
        exact h

/-- Only a new batch is claimed for its first attempt. -/
theorem BatchClaim.first {now : Time} {db db' : Database Digest} {loaded : LoadedBatch Digest}
    (hq : Queue rt db) (hc : BatchClaim now db db' loaded) (hone : loaded.batch.attemptCount ≤ 1) :
    loaded.batch.firstAttemptAt = some now := by
  cases hc with
  | @leased b found ready db_eq loaded =>
      rw [db_eq] at loaded
      have hrow := loaded.1
      rw [Table.get?_update, Table.mem_iff_get?.mp found, Option.map_some,
        if_pos (beq_self_eq_true _)] at hrow
      rw [← Option.some.inj hrow] at hone
      have hcount := (hq.batch b found).2.2
      change b.attemptCount + 1 ≤ 1 at hone
      omega
  | @created ids table limit locked entries nonempty inserted db_eq loaded =>
      rw [db_eq] at loaded
      have hrow := loaded.1
      change table.get? (db.nextId + 1) = _ at hrow
      rw [Table.get?_of_insert? inserted,
        if_pos (show (newBatch now db.nextId _).id = db.nextId + 1 from rfl)] at hrow
      rw [← Option.some.inj hrow]
      rfl

/-- The window of a claimed entry. -/
theorem EntryClaim.started {readAt now : Time} {db db' : Database Digest}
    {entry : ClaimedEntry Digest} {e : EmailAttachmentOutboxEntry}
    (hc : EntryClaim readAt db db' entry e) (hq : Queue rt db) (h : db.Past now)
    (hread : readAt ≤ now) :
    WindowClaim.Started ⟨readAt, entry.firstAttemptAt, entry.attemptCount⟩ now := by
  have hfound : e ∈ db.attachmentOutboxEntries := by
    have := hc.found
    rwa [hq.sweptAttachments_eq] at this
  constructor
  · change entry.firstAttemptAt ≤ now
    rw [hc.firstAttemptAt]
    cases hfirst : e.firstAttemptAt with
    | none => exact hread
    | some w => exact h.attachmentEntries e hfound w hfirst
  · intro hone
    change entry.attemptCount ≤ 1 at hone
    rw [hc.attemptCount] at hone
    have hzero : e.attemptCount = 0 := by omega
    rw [hc.firstAttemptAt, (hq.attempts e hfound).mp hzero]
    rfl

/-- Every step keeps the windows. -/
theorem Effect.callsInWindow [DecidableEq Digest] {s s' : System Digest} {a : Action Digest}
    (hinj : Function.Injective rt.hashSendRequest) (hc : Coherent rt s) (h : CallsInWindow s)
    (he : Effect rt s a s') : CallsInWindow s' := by
  have hl := (he.coherent hinj hc).2
  have hrows := he.past hinj hc h.rows
  have hsame : ∀ call ∈ s.provider.calls,
      (∃ call₀ ∈ s.provider.calls, call₀.placed = call.placed) ∨ call.InWindow s.now :=
    fun call hcall => .inl ⟨call, hcall, rfl⟩
  have hobserve : ∀ callId o, ∀ call ∈ (s.provider.observe callId o).calls,
      (∃ call₀ ∈ s.provider.calls, call₀.placed = call.placed) ∨ call.InWindow s.now :=
    fun callId o call hcall => .inl (s.provider.placed_observe callId o call hcall)
  -- the worker's own process after a step in which it is not about to call
  have hidle : ∀ {db : Database Digest} {p : Proc Digest}, p.sends = false ∧ p.files = false →
      p.InWindow db s.now := fun h => .of_idle h.1
  have hnone : ∀ {db : Database Digest} {p : Proc Digest}, p.windowClaim = none →
      p.delivery = none → p.InWindow db s.now := .of_none
  cases he with
  | quiet passive provider leases objects now retires =>
      refine h.of_step hc hl now hrows (fun pid p hp => ?_) fun call hcall => .inl ?_
      · cases hsends : p.sends with
        | true => exact .inl (retires pid p hp (.inl hsends))
        | false => exact .inr (.of_idle hsends)
      · exact Provider.placed_same provider call hcall
  | filed background provider leases now retires =>
      refine h.of_step hc hl now.ge hrows (fun pid p hp => ?_) fun call hcall => .inl ?_
      · cases hsends : p.sends with
        | true => exact .inl (retires pid p hp hsends)
        | false => exact .inr (.of_idle hsends)
      · exact Provider.placed_same provider call hcall
  | reached callId accepted answer provider action reach eq =>
      subst eq
      exact h.of_step hc hl le_rfl hrows (fun pid p hp => .inl hp)
        fun call hcall => .inl (Provider.placed_reach reach call hcall)
  | deleted c db' action deletion eq =>
      subst eq
      exact h.of_step hc hl le_rfl hrows (fun pid p hp => .inl hp) hsame
  | stored pid c handler reopened db' id p action runs reopens stores next eq =>
      subst eq
      refine h.of_step hc hl le_rfl hrows (System.runs_of_become rfl ?_) hsame
      split at next
      next => exact hidle next
      next =>
        obtain ⟨⟨v, hs⟩, -⟩ := stores
        subst next
        refine ⟨by simp [Proc.windowClaim, SendHandler.goto], fun d hd w hw => ?_⟩
        obtain rfl := Option.some.inj hd
        obtain rfl := Option.some.inj (hs.stored.symm.trans hw)
        rw [hs.intended.createdAt]
        exact Int.lt_add_of_pos_right _ (by decide)
  | engaged pid c handler m action runs found hash sync eq =>
      subst eq
      exact h.of_step hc hl le_rfl hrows (System.runs_of_become rfl (hnone rfl rfl)) hsame
  | reopening pid c handler conversation action runs found topic eq =>
      subst eq
      exact h.of_step hc hl le_rfl hrows (System.runs_of_become rfl (hnone rfl rfl)) hsame
  | expiring pid c handler id action runs phase eq =>
      subst eq
      exact h.of_step hc hl le_rfl hrows (System.runs_of_become rfl (hnone rfl rfl)) hsame
  | resumed pid c handler m action runs phase found window eq =>
      subst eq
      refine h.of_step hc hl le_rfl hrows (System.runs_of_become rfl ?_) hsame
      refine ⟨by simp [Proc.windowClaim, SendHandler.goto], fun d hd v hv => ?_⟩
      obtain rfl := Option.some.inj hd
      obtain rfl :=
        Option.some.inj ((Database.view?_of_get? (Table.mem_iff_get?.mp found)).symm.trans hv)
      exact lt_of_not_expired window
  | prepared pid c handler d attachments action runs phase eq =>
      subst eq
      refine h.of_step hc hl le_rfl hrows (System.runs_of_become rfl ?_) hsame
      refine ⟨by simp [Proc.windowClaim, SendHandler.goto], fun d' hd v hv => ?_⟩
      obtain rfl := Option.some.inj hd
      exact (h.procs pid _ runs).delivery d (by simp [Proc.delivery, phase]) v hv
  | expired pid c handler id db' p action runs phase rewrite next eq =>
      subst eq
      exact h.of_step hc hl le_rfl hrows (System.runs_of_become rfl (hidle next)) hsame
  | called pid c handler d attachments m action runs phase free found pending eq =>
      subst eq
      have hv := Database.view?_of_get? found
      obtain ⟨-, -, hhash⟩ := (hc.fits pid _ runs).delivers handler.request d.messageId
        (by simp [Proc.delivers, phase])
      have hsome : m.sendView.requestHash.isSome := by rw [hhash _ hv]; rfl
      refine h.of_step hc hl le_rfl hrows (System.runs_of_become rfl (hnone rfl rfl))
        (System.calls_call ⟨?_, ?_⟩)
      · exact h.rows.views _ _ hv hsome
      · exact (h.procs pid _ runs).delivery d (by simp [Proc.delivery, phase]) _ hv
  | refused pid c handler d attachments m error db' p action runs phase free found pending cause
      rewrite next eq =>
      subst eq
      exact h.of_step hc hl le_rfl hrows (System.runs_of_become rfl (hidle next)) hsame
  | settled pid c handler d m callId observation db' p action runs phase waits observed
      rewrite next eq =>
      subst eq
      exact h.of_step hc hl le_rfl hrows (System.runs_of_become rfl (hidle next)) (hobserve _ _)
  | batchSwept pid p next eq =>
      subst eq
      exact h.of_step hc hl le_rfl hrows (System.runs_of_become rfl (hidle next)) hsame
  | batchClaimed pid c loaded db' p claim free next eq =>
      subst eq
      refine h.of_step hc hl le_rfl hrows (System.runs_of_become rfl ?_) hsame
      have hq := hc.queue.of_batchClaim claim
      obtain ⟨batch, hcheck, -, -, hcount, hfirst, -⟩ :=
        hq.checkClaim_eq_ok s.db.nextId claim.loaded_eq
      rw [hcheck] at next
      subst next
      refine ⟨fun w hw => ?_, by simp [Proc.delivery]⟩
      obtain rfl := Option.some.inj hw
      refine ⟨hrows.batches _ (Table.mem_of_get? claim.loaded_eq.1) _ hfirst, fun hone => ?_⟩
      have hnew := claim.first hc.queue (hcount ▸ hone)
      exact (Option.some.inj (hfirst.symm.trans hnew)).symm
  | batchSkipped pid c batch claimedAt decision action runs decided eq =>
      subst eq
      exact h.of_step hc hl le_rfl hrows (System.runs_of_become rfl (hnone rfl rfl)) hsame
  | batchCalled pid c batch claimedAt action runs window eq =>
      subst eq
      have hstarted := (h.procs pid _ runs).claim _ rfl
      exact h.of_step hc hl le_rfl hrows (System.runs_of_become rfl (hnone rfl rfl))
        (System.calls_call ⟨hstarted.started, hstarted.checked window⟩)
  | batchObserved pid c batch callId observation action runs observed eq =>
      subst eq
      exact h.of_step hc hl le_rfl hrows (System.runs_of_become rfl (hnone rfl rfl)) (hobserve _ _)
  | batchFinalized pid c batch decision db' p action runs finalized next eq =>
      subst eq
      exact h.of_step hc hl le_rfl hrows (System.runs_of_become rfl (hidle next)) hsame
  | batchRescheduled pid c batch decision db' p action runs rescheduled next eq =>
      subst eq
      exact h.of_step hc hl le_rfl hrows (System.runs_of_become rfl (hidle next)) hsame
  | entrySwept pid p next eq =>
      subst eq
      exact h.of_step hc hl le_rfl hrows (System.runs_of_become rfl (hidle next)) hsame
  | entryClaimed pid c remaining result entry e db' action runs claim eq =>
      subst eq
      refine h.of_step hc hl le_rfl hrows (System.runs_of_become rfl ?_) hsame
      refine ⟨fun w hw => ?_, by simp [Proc.delivery]⟩
      obtain rfl := Option.some.inj hw
      exact claim.started hc.queue h.rows (s.clock_le c.readAt)
  | entrySkipped pid c remaining result entry claimedAt decision action runs decided eq =>
      subst eq
      exact h.of_step hc hl le_rfl hrows (System.runs_of_become rfl (hnone rfl rfl)) hsame
  | entryCalled pid c remaining result entry claimedAt attachments action runs window eq =>
      subst eq
      have hstarted := (h.procs pid _ runs).claim _ rfl
      exact h.of_step hc hl le_rfl hrows (System.runs_of_become rfl (hnone rfl rfl))
        (System.calls_call ⟨hstarted.started, hstarted.checked window⟩)
  | entryObserved pid c remaining result entry callId observation action runs observed eq =>
      subst eq
      exact h.of_step hc hl le_rfl hrows (System.runs_of_become rfl (hnone rfl rfl)) (hobserve _ _)
  | entryFinalized pid c remaining result entry decision db' p action runs finalized next eq =>
      subst eq
      exact h.of_step hc hl le_rfl hrows (System.runs_of_become rfl (hidle next)) hsame
  | entryRescheduled pid c remaining result entry decision db' p action runs rescheduled next eq =>
      subst eq
      exact h.of_step hc hl le_rfl hrows (System.runs_of_become rfl (hidle next)) hsame
  | entryRedecided pid c remaining result entry decision name message action runs eq =>
      subst eq
      exact h.of_step hc hl le_rfl hrows (System.runs_of_become rfl (hnone rfl rfl)) hsame

end ResendConversation
