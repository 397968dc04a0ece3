import ResendConversation.Coherence

/-! # Writers of a message

The five writers of a stored message's send state (`MessageWrite`): the guarded update of a
replay whose window has passed, a delivery that throws before its call, a delivery that
observed its call, and the finalizations of the two lanes.  A message that a step changes was
changed by one of them. -/

namespace ResendConversation

open Foundation Tx

variable {Digest : Type} {rt : Runtime Digest}

/-- How a step from `s` to `s'` changed the view `v` of the message `id` to `v'`. -/
inductive MessageWrite (s : System Digest) (a : Action Digest) (s' : System Digest) (id : Uuid)
    (v v' : SendView Digest) : Prop
  | expired (pid : ℕ) (c : Choice Digest) (h : SendHandler Digest) (action : a = .run pid c)
      (runs : s.Runs pid (.send h)) (phase : h.phase = .expire id) (pending : v.state = .pending)
      (eq : v' = v.expired)
  | refused (pid : ℕ) (c : Choice Digest) (h : SendHandler Digest) (d : Delivery)
      (attachments : List SendEmailAttachmentInput) (m : EmailMessage Digest) (error : SendError)
      (action : a = .run pid c) (runs : s.Runs pid (.send h)) (message : d.messageId = id)
      (phase : h.phase = .deliver d (.lock attachments))
      (free : ∀ q p, s.Runs q p → p.holdsLock id = false) (pending : v.state = .pending)
      (cause : (m.idempotencyKey = none ∧ error = missingIdempotencyKey) ∨
        (s.config.resendApiKey = false ∧ error = missingApiKey))
      (found : m.sendView = v) (eq : v' = v.thrown error)
  | settled (pid : ℕ) (c : Choice Digest) (h : SendHandler Digest) (d : Delivery)
      (m : EmailMessage Digest) (callId : Uuid) (observation : Observation)
        (action : a = .run pid c)
      (runs : s.Runs pid (.send h)) (message : d.messageId = id)
      (phase : h.phase = .deliver d (.calling m callId))
      (observed : s.provider.observation callId c.lost = some observation)
      (done : ∀ p, s'.Runs pid p → p.sends = false)
      (eq : v' = SendView.settled (sendResult observation) v)
  | batchFinalized (pid : ℕ) (c : Choice Digest) (batch : ClaimedBatch Digest)
      (decision : BatchDecision) (action : a = .run pid c)
      (runs : s.Runs pid (.batchDrain (.working batch (.ending decision))))
      (terminal : ∀ errorCode, decision ≠ .retry errorCode)
      (owned : ∃ b ∈ s.db.outboxBatches, batch.owned b = true) (message : id ∈ batch.messageIds)
      (pending : v.state = .pending) (eq : v' = decision.endView batch id v)
  | entryFinalized (pid : ℕ) (c : Choice Digest) (remaining : ℕ)
      (result : AttachmentOutboxDrainResult) (entry : ClaimedEntry Digest)
        (decision : EntryDecision)
      (action : a = .run pid c)
      (runs : s.Runs pid (.entryDrain (.working remaining result entry (.ending decision))))
      (terminal : ∀ errorCode, decision ≠ .retry errorCode)
      (owned : ∃ e ∈ s.db.attachmentOutboxEntries, entry.owned e = true)
      (message : id = entry.message.id) (pending : v.state = .pending)
      (eq : v' = decision.endView v)

theorem Frame.view_eq {φ : Uuid → SendView Digest → SendView Digest} {db db' : Database Digest}
    (h : Frame φ db db') {id : Uuid} {v v' : SendView Digest} (hv : db.view? id = some v)
    (hv' : db'.view? id = some v') : v' = φ id v :=
  Option.some.inj (hv'.symm.trans (h.view id v hv))

/-- A rewriting that changed a message is the rewriting of that message. -/
theorem Rewrite.view_eq {k id : Uuid} {f : SendView Digest → SendView Digest}
    {db db' : Database Digest} (h : Rewrite (onMessage k f) db db') {v v' : SendView Digest}
    (hv : db.view? id = some v) (hv' : db'.view? id = some v') (hne : v' ≠ v) :
    k = id ∧ v' = f v := by
  have heq := h.toFrame.view_eq hv hv'
  unfold onMessage at heq
  split at heq
  next hid => exact ⟨hid.symm, heq⟩
  next => exact absurd heq hne

theorem Effect.write {s s' : System Digest} {a : Action Digest} (he : Effect rt s a s') {id : Uuid}
    {v v' : SendView Digest} (hv : s.db.view? id = some v) (hv' : s'.db.view? id = some v')
    (hne : v' ≠ v) : MessageWrite s a s' id v v' := by
  have hsame : ∀ {db' : Database Digest}, Frame (fun _ v => v) s.db db' → db'.view? id = some v' →
      MessageWrite s a s' id v v' := fun hf h => absurd (hf.view_eq hv h) hne
  have hself : s.db.view? id = some v' → MessageWrite s a s' id v v' := fun h => by
    rw [hv] at h
    exact absurd (Option.some.inj h).symm hne
  cases he with
  | quiet passive provider leases objects now retires => exact hsame passive.toFrame hv'
  | filed background provider leases now retires => exact hsame background.toFrame hv'
  | reached callId accepted answer provider action reach eq =>
      subst eq
      exact hself hv'
  | deleted c db' action deletion eq =>
      subst eq
      obtain ⟨m, hm, -, rfl⟩ := deletion.view_of_view hv'
      exact hself (Database.view?_of_get? hm)
  | stored pid c handler reopened db' k p action runs reopens stores next eq =>
      subst eq
      obtain ⟨⟨w, hs⟩, -⟩ := stores
      exact absurd (Option.some.inj (hv'.symm.trans (hs.view id v hv))) hne
  | engaged pid c handler m action runs found hash sync eq =>
      subst eq
      exact hself hv'
  | reopening pid c handler conversation action runs found topic eq =>
      subst eq
      exact hself hv'
  | expiring pid c handler k action runs phase eq =>
      subst eq
      exact hself hv'
  | resumed pid c handler m action runs phase found window eq =>
      subst eq
      exact hself hv'
  | prepared pid c handler d attachments action runs phase eq =>
      subst eq
      exact hself hv'
  | expired pid c handler k db' p action runs phase rewrite next eq =>
      subst eq
      obtain ⟨rfl, heq⟩ := rewrite.view_eq hv hv' hne
      refine .expired pid c handler action runs phase ?_ heq
      by_contra hp
      rw [SendView.expired, if_neg hp] at heq
      exact hne heq
  | called pid c handler d attachments m action runs phase free found pending eq =>
      subst eq
      exact hself hv'
  | refused pid c handler d attachments m error db' p action runs phase free found pending cause
      rewrite next eq =>
      subst eq
      obtain ⟨rfl, heq⟩ := rewrite.view_eq hv hv' hne
      have hm : m.sendView = v := Option.some.inj ((Database.view?_of_get? found).symm.trans hv)
      exact .refused pid c handler d attachments m error action runs rfl phase free
        (hm ▸ pending) cause
        hm heq
  | settled pid c handler d m callId observation db' p action runs phase waits observed
      rewrite next eq =>
      subst eq
      rcases rewrite with rfl | rewrite
      · exact hself hv'
      · obtain ⟨rfl, heq⟩ := rewrite.view_eq hv hv' hne
        refine .settled pid c handler d m callId observation action runs rfl phase observed ?_ heq
        intro p' hp'
        rcases System.runs_become.mp hp' with ⟨-, rfl⟩ | ⟨hpid, -⟩
        · exact next.1
        · exact absurd rfl hpid
  | batchSwept pid p next eq =>
      subst eq
      exact hself hv'
  | batchClaimed pid c loaded db' p claim free next eq =>
      subst eq
      exact hsame claim.frame hv'
  | batchSkipped pid c batch claimedAt decision action runs decided eq =>
      subst eq
      exact hself hv'
  | batchCalled pid c batch claimedAt action runs window eq =>
      subst eq
      exact hself hv'
  | batchObserved pid c batch callId observation action runs observed eq =>
      subst eq
      exact hself hv'
  | batchFinalized pid c batch decision db' p action runs finalized next eq =>
      subst eq
      have heq := finalized.toFrame.view_eq hv hv'
      unfold BatchDecision.apply at heq
      split at heq
      next hcase =>
        simp only [Bool.and_eq_true, List.contains_iff_mem, beq_iff_eq] at hcase
        exact .batchFinalized pid c batch decision action runs finalized.terminal finalized.owned
          hcase.1 hcase.2 heq
      next => exact absurd heq hne
  | batchRescheduled pid c batch decision db' p action runs rescheduled next eq =>
      subst eq
      exact hsame rescheduled.frame hv'
  | entrySwept pid p next eq =>
      subst eq
      exact hself hv'
  | entryClaimed pid c remaining result entry e db' action runs claim eq =>
      subst eq
      exact hsame claim.frame hv'
  | entrySkipped pid c remaining result entry claimedAt decision action runs decided eq =>
      subst eq
      exact hself hv'
  | entryCalled pid c remaining result entry claimedAt attachments action runs window eq =>
      subst eq
      exact hself hv'
  | entryObserved pid c remaining result entry callId observation action runs observed eq =>
      subst eq
      exact hself hv'
  | entryFinalized pid c remaining result entry decision db' p action runs finalized next eq =>
      subst eq
      have heq := finalized.toFrame.view_eq hv hv'
      unfold EntryDecision.apply at heq
      split at heq
      next hcase =>
        simp only [Bool.and_eq_true, beq_iff_eq] at hcase
        exact .entryFinalized pid c remaining result entry decision action runs finalized.terminal
          finalized.owned hcase.1 hcase.2 heq
      next => exact absurd heq hne
  | entryRescheduled pid c remaining result entry decision db' p action runs rescheduled next eq =>
      subst eq
      exact hsame rescheduled.frame hv'
  | entryRedecided pid c remaining result entry decision name message action runs eq =>
      subst eq
      exact hself hv'

/-! ### Queued messages -/

/-- The message was stored by a queued request. -/
def SendView.Queued (rt : Runtime Digest) (v : SendView Digest) : Prop :=
  ∃ request : SendRequest, v.requestHash = some (rt.hashSendRequest request) ∧ request.queued = true

/-- A handler delivers no queued message. -/
theorem Coherent.not_queued_of_delivers {s : System Digest}
    (hinj : Function.Injective rt.hashSendRequest) (hc : Coherent rt s) {pid : ℕ} {p : Proc Digest}
    {request : SendRequest} {id : Uuid} {v : SendView Digest} (hp : s.Runs pid p)
    (hd : p.delivers = some (request, id)) (hv : s.db.view? id = some v) : ¬v.Queued rt := by
  rintro ⟨request', hr, hqueued⟩
  obtain ⟨-, hnq, hhash⟩ := (hc.fits pid p hp).delivers _ _ hd
  rw [hhash v hv] at hr
  rw [hinj (Option.some.inj hr), hqueued] at hnq
  cases hnq

/-- A delivery that settles its message writes no queued message, and the other writers write
pending messages. -/
theorem MessageWrite.of_queued {s s' : System Digest} {a : Action Digest} {id : Uuid}
    {v v' : SendView Digest} (hinj : Function.Injective rt.hashSendRequest) (hc : Coherent rt s)
    (hv : s.db.view? id = some v) (hq : v.Queued rt) (hw : MessageWrite s a s' id v v') :
    v.state = .pending := by
  cases hw with
  | expired pid c h action runs phase pending eq => exact pending
  | refused pid c h d attachments m error action runs message phase free pending cause found eq =>
      exact pending
  | settled pid c h d m callId observation action runs message phase observed done eq =>
      have hd : (Proc.send h).delivers = some (h.request, id) := by
        simp [Proc.delivers, phase, message]
      exact absurd hq (hc.not_queued_of_delivers hinj runs hd hv)
  | batchFinalized pid c batch decision action runs terminal owned message pending eq =>
      exact pending
  | entryFinalized pid c remaining result entry decision action runs terminal owned message
      pending eq =>
      exact pending

theorem Database.Queued.view_queued {db : Database Digest} {id : Uuid} {b : Bool}
    (h : db.Queued rt id b) {v : SendView Digest} (hv : db.view? id = some v) : v.Queued rt := by
  obtain ⟨w, hw, -, request, hr, hq, -⟩ := h
  obtain rfl : v = w := Option.some.inj (hv.symm.trans hw)
  exact ⟨request, hr, hq⟩

/-- The messages of a batch that its worker still holds are queued. -/
theorem Coherent.queued_of_batch {s : System Digest} (hc : Coherent rt s) {pid : ℕ}
    {batch : ClaimedBatch Digest} {phase : BatchPhase Digest}
    (hp : s.Runs pid (.batchDrain (.working batch phase)))
    (howned : ∃ b ∈ s.db.outboxBatches, batch.owned b = true) {id : Uuid} {v : SendView Digest}
    (hid : id ∈ batch.messageIds) (hv : s.db.view? id = some v) : v.Queued rt := by
  have hheld := fits_batch.mp (hc.fits pid _ hp)
  obtain ⟨e, he, rfl, -⟩ := hheld.holds (get?_of_owned howned) id hid (by rw [hv]; rfl)
  exact (hc.queue.entry e he).view_queued hv

/-- So is the message of an entry. -/
theorem Coherent.queued_of_entry {s : System Digest} (hc : Coherent rt s)
    {entry : ClaimedEntry Digest}
    (howned : ∃ e ∈ s.db.attachmentOutboxEntries, entry.owned e = true) {v : SendView Digest}
    (hv : s.db.view? entry.message.id = some v) : v.Queued rt := by
  obtain ⟨e, he, ho⟩ := howned
  rw [← (ClaimedEntry.owned_iff.mp ho).1] at hv
  exact (hc.queue.attachmentEntry e he).view_queued hv

end ResendConversation
