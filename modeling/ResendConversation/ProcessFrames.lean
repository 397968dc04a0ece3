import ResendConversation.Effects

/-! # What a process leaves alone

A step of one process changes neither the clock nor the configuration nor another process.
Unless it acts on stored objects, it changes no object. -/

namespace ResendConversation

open Foundation

variable {Digest : Type} {rt : Runtime Digest} {s s' : System Digest} {pid : ℕ} {c : Choice Digest}

/-- Only the process with the given number moved. -/
structure System.Lone (pid : ℕ) (s s' : System Digest) : Prop where
  now : s'.now = s.now
  config : s'.config = s.config
  others : ∀ q, q ≠ pid → s'.procs.get? q = s.procs.get? q

/-- Only the process with the given number moved, and objects stay. -/
structure System.Bare (pid : ℕ) (s s' : System Digest) : Prop extends System.Lone pid s s' where
  objects : s'.objects = s.objects

/-- The systems differ in the database, the provider and the leases. -/
structure System.Beside (s s' : System Digest) : Prop where
  now : s'.now = s.now
  config : s'.config = s.config
  procs : s'.procs = s.procs
  objects : s'.objects = s.objects

namespace System

theorem Beside.refl (s : System Digest) : Beside s s := ⟨rfl, rfl, rfl, rfl⟩

theorem beside_transact {α : Type} {x : Transaction Digest α} {r : Except TxError α}
    {t : System Digest} (h : s.transact x = (r, t)) : Beside s t := by
  cases h
  exact ⟨rfl, rfl, rfl, rfl⟩

theorem Beside.bare {t : System Digest} (h : Beside s t) (pid : ℕ) : Bare pid s t where
  now := h.now
  config := h.config
  others := fun q _ => by rw [h.procs]
  objects := h.objects

theorem Beside.become {t : System Digest} (h : Beside s t) (pid : ℕ) (p : Proc Digest) :
    Bare pid s (t.become pid p) where
  now := h.now
  config := h.config
  others := by
    intro q hq
    simp only [System.become, Table.get?_set, h.procs]
    exact if_neg (Ne.symm hq)
  objects := h.objects

theorem Beside.finish {t : System Digest} (h : Beside s t) (pid : ℕ) :
    Bare pid s (t.finish pid) where
  now := h.now
  config := h.config
  others := by
    intro q hq
    simp only [System.finish, Table.get?_delete, h.procs]
    cases hp : s.procs.get? q with
    | none => rfl
    | some p =>
        have hid := Table.key_of_get? hp
        simp [hid, hq]
  objects := h.objects

theorem bare_become (s : System Digest) (pid : ℕ) (p : Proc Digest) : Bare pid s (s.become pid p) :=
  (Beside.refl s).become pid p

/-- A transaction, after which the process goes on. -/
theorem bare_transact {α : Type} (s : System Digest) (x : Transaction Digest α) (pid : ℕ)
    (p : Proc Digest) :
    Bare pid s ((s.transact x).2.become pid p) :=
  (beside_transact (r := (s.transact x).1) rfl).become pid p

/-- An object is written or removed as well. -/
theorem lone_become {u : System Digest}
    (h : u.now = s.now ∧ u.config = s.config ∧ u.procs = s.procs) (pid : ℕ) (p : Proc Digest) :
    Lone pid s (u.become pid p) where
  now := h.1
  config := h.2.1
  others := by
    intro q hq
    simp only [System.become, Table.get?_set, h.2.2]
    exact if_neg (Ne.symm hq)

end System

open ResendConversation.System

/-! ### Sends -/

namespace SendHandler

variable {h : SendHandler Digest}

theorem settle_bare {t : System Digest} (ht : Beside s t) (d : Delivery)
    (result : Except SendError JsString) :
    Bare pid s (h.settle t pid d result) := by
  unfold settle
  split
  · split
    next heq =>
      have hsent := beside_transact heq
      exact (Beside.mk (hsent.now.trans ht.now) (hsent.config.trans ht.config)
        (hsent.procs.trans ht.procs) (hsent.objects.trans ht.objects)).become _ _
    next heq =>
      have hsent := beside_transact heq
      exact (Beside.mk (hsent.now.trans ht.now) (hsent.config.trans ht.config)
        (hsent.procs.trans ht.procs) (hsent.objects.trans ht.objects)).become _ _
  · refine Beside.become ?_ _ _
    exact ⟨ht.now, ht.config, ht.procs, ht.objects⟩

theorem beginDelivery_bare {d : Delivery} {attachments : List SendEmailAttachmentInput}
    (hs : h.beginDelivery s pid d attachments = some s') : Bare pid s s' := by
  unfold beginDelivery at hs
  split at hs
  · cases hs
  split at hs
  · cases hs
    exact bare_become _ _ _
  split at hs
  · cases hs
    exact bare_become _ _ _
  split at hs
  · cases hs
    exact settle_bare (.refl s) _ _
  split at hs
  · cases hs
    refine Beside.become ?_ _ _
    exact ⟨rfl, rfl, rfl, rfl⟩
  · cases hs
    exact settle_bare (.refl s) _ _

theorem hydrateSent_bare (d : Delivery) (m : EmailMessage Digest) :
    Bare pid s (h.hydrateSent rt s pid d m c) := by
  unfold hydrateSent
  split
  · exact bare_become _ _ _
  split
  · exact bare_become _ _ _
  split
  next heq => exact (beside_transact heq).become _ _
  next heq => exact (beside_transact heq).bare _

theorem retrieveMessageId_bare (parent stored : EmailMessage Digest) :
    Bare pid s (h.retrieveMessageId rt s pid parent stored c) := by
  unfold retrieveMessageId
  split
  · exact bare_become _ _ _
  dsimp only
  split
  next heq => exact (beside_transact heq).become _ _
  next heq => exact (beside_transact heq).become _ _

theorem reopenTransact_bare {conversation : EmailConversation}
    (hs : h.reopenTransact rt s pid conversation c = some s') : Bare pid s s' := by
  unfold reopenTransact at hs
  split at hs
  · dsimp only at hs
    split at hs
    all_goals
      next heq =>
        cases hs
        exact (beside_transact heq).become _ _
  · cases hs

theorem loadParent_bare (hs : h.loadParent s pid = some s') : Bare pid s s' := by
  unfold loadParent at hs
  split at hs
  · repeat' split at hs
    all_goals
      cases hs
      exact bare_become _ _ _
  · cases hs

theorem ensureMessageId_bare (parent : EmailMessage Digest) :
    Bare pid s (h.ensureMessageId s pid parent) := by
  unfold ensureMessageId
  repeat' split
  all_goals exact bare_become _ _ _

theorem recover_bare (messageId : Uuid) : Bare pid s (h.recover s pid messageId) := by
  unfold recover
  repeat' split
  all_goals exact bare_become _ _ _

theorem reload_bare (messageId : Uuid) (mode : ReloadMode) :
    Bare pid s (h.reload s pid messageId mode) := by
  unfold reload
  repeat' split
  all_goals exact bare_become _ _ _

theorem deliver_bare {d : Delivery} {phase : DeliveryPhase Digest}
    (hs : h.deliver rt s pid d c phase = some s') : Bare pid s s' := by
  cases phase with
  | prepare =>
      simp only [deliver] at hs
      split at hs
      all_goals
        cases hs
        exact bare_become _ _ _
  | lock attachments =>
      simp only [deliver] at hs
      split at hs
      · cases hs
        exact bare_become _ _ _
      · exact beginDelivery_bare hs
  | calling m callId =>
      simp only [deliver] at hs
      split at hs
      · cases hs
        exact bare_become _ _ _
      split at hs
      · cases hs
      · cases hs
        refine settle_bare ?_ _ _
        exact ⟨rfl, rfl, rfl, rfl⟩
  | hydrate m =>
      cases hs
      exact hydrateSent_bare _ _

theorem step_bare [DecidableEq Digest] (hs : h.step rt s pid c = some s') : Bare pid s s' := by
  unfold step at hs
  split at hs
  next =>
    split at hs
    all_goals
      cases hs
      exact bare_become _ _ _
  next =>
    split at hs
    all_goals
      cases hs
      exact bare_become _ _ _
  next => exact loadParent_bare hs
  next =>
    cases hs
    exact ensureMessageId_bare _
  next =>
    cases hs
    exact retrieveMessageId_bare _ _
  next =>
    cases hs
    exact bare_transact _ _ _ _
  next =>
    cases hs
    exact bare_become _ _ _
  next =>
    repeat' split at hs
    all_goals
      cases hs
      try exact bare_become _ _ _
  next => exact reopenTransact_bare hs
  next =>
    split at hs
    all_goals
      cases hs
      exact bare_become _ _ _
  next =>
    cases hs
    exact recover_bare _
  next =>
    cases hs
    refine Beside.become ?_ _ _
    exact ⟨rfl, rfl, rfl, rfl⟩
  next => exact deliver_bare hs
  next =>
    cases hs
    exact reload_bare _ _
  next => cases hs

end SendHandler

/-! ### Drains -/

theorem BatchWorker.start_bare (limit : ℕ) : Bare pid s (BatchWorker.start s pid limit c) := by
  have hclaim : Beside s (claimOutboxBatch s limit c).2 := by
    unfold claimOutboxBatch
    split
    next heq => exact beside_transact heq
    next heq => exact beside_transact heq
    next heq =>
      have hclaimed := beside_transact heq
      exact ⟨hclaimed.now, hclaimed.config, hclaimed.procs, hclaimed.objects⟩
  unfold BatchWorker.start
  split
  all_goals
    next heq =>
      rw [heq] at hclaim
      exact hclaim.become _ _

theorem BatchWorker.step_bare {w : BatchWorker Digest} (hs : w.step s pid c = some s') :
    Bare pid s s' := by
  unfold BatchWorker.step at hs
  split at hs
  · cases hs
    unfold BatchWorker.send
    dsimp only
    split
    · exact bare_become _ _ _
    split
    · refine Beside.become ?_ _ _
      exact ⟨rfl, rfl, rfl, rfl⟩
    · exact bare_become _ _ _
  · split at hs
    · cases hs
    · cases hs
      refine Beside.become ?_ _ _
      exact ⟨rfl, rfl, rfl, rfl⟩
  · split at hs
    all_goals
      next heq =>
        cases hs
        exact (beside_transact heq).become _ _
  · cases hs

theorem EntryWorker.claim_bare (remaining : ℕ) (result : AttachmentOutboxDrainResult) :
    Bare pid s (EntryWorker.claim s pid remaining result c) := by
  unfold EntryWorker.claim
  split
  next heq => exact (beside_transact heq).become _ _
  next heq => exact (beside_transact heq).become _ _
  next heq =>
    have hclaimed := beside_transact heq
    dsimp only
    refine Beside.become ?_ _ _
    exact ⟨hclaimed.now, hclaimed.config, hclaimed.procs, hclaimed.objects⟩

theorem EntryWorker.send_bare (entry : ClaimedEntry Digest) (claimedAt : Time) (fails : Bool)
    (continueWith : EntryPhase Digest → Proc Digest) :
    Bare pid s (EntryWorker.send s pid entry claimedAt fails continueWith) := by
  unfold EntryWorker.send
  split
  · exact bare_become _ _ _
  split
  · exact bare_become _ _ _
  dsimp only
  split
  · refine Beside.become ?_ _ _
    exact ⟨rfl, rfl, rfl, rfl⟩
  · exact bare_become _ _ _

theorem EntryWorker.finish_bare (remaining : ℕ) (result : AttachmentOutboxDrainResult)
    (entry : ClaimedEntry Digest) (decision : EntryDecision) :
    Bare pid s (EntryWorker.finish s pid remaining result entry decision) := by
  unfold EntryWorker.finish
  split
  next heq => exact (beside_transact heq).become _ _
  next heq =>
    split
    · exact (beside_transact heq).become _ _
    · exact (beside_transact heq).become _ _

theorem EntryWorker.step_bare {w : EntryWorker Digest} (hs : w.step s pid c = some s') :
    Bare pid s s' := by
  unfold EntryWorker.step at hs
  split at hs
  · cases hs
    exact bare_become _ _ _
  · cases hs
    exact EntryWorker.claim_bare _ _
  · cases hs
    exact EntryWorker.send_bare _ _ _ _
  · split at hs
    · cases hs
    · cases hs
      refine Beside.become ?_ _ _
      exact ⟨rfl, rfl, rfl, rfl⟩
  · cases hs
    exact EntryWorker.finish_bare _ _ _ _
  · cases hs

/-! ### Inbound mail -/

theorem ReceiveHandler.step_bare [DecidableEq Digest] {h : ReceiveHandler Digest}
    (hs : h.step rt s pid c = some s') : Bare pid s s' := by
  unfold ReceiveHandler.step at hs
  split at hs
  next =>
    cases hs
    exact bare_transact _ _ _ _
  next =>
    cases hs
    exact bare_become _ _ _
  next =>
    cases hs
    exact bare_become _ _ _
  next =>
    cases hs
    unfold ReceiveHandler.hydrate
    split
    · repeat' split
      all_goals exact bare_become _ _ _
    · split
      · exact bare_become _ _ _
      · split
        all_goals
          next heq => exact (beside_transact heq).become _ _
  next =>
    cases hs
    unfold ReceiveHandler.project
    split
    · exact bare_become _ _ _
    · split
      all_goals
        next heq => exact (beside_transact heq).become _ _
  next =>
    split at hs
    all_goals
      cases hs
      exact bare_become _ _ _
  next => cases hs
  next => cases hs

/-! ### Stored objects -/

theorem IngestWorker.start_bare : Bare pid s (IngestWorker.start s pid c) := by
  unfold IngestWorker.start
  split
  next heq => exact (beside_transact heq).bare _
  next heq => exact (beside_transact heq).become _ _

theorem IngestWorker.fetch_lone (w : IngestWorker) (a : ClaimedAttachment) :
    Lone pid s (w.fetch s pid a c) := by
  unfold IngestWorker.fetch
  split
  · exact (bare_become _ _ _).toLone
  split
  · exact (bare_become _ _ _).toLone
  split
  · refine lone_become ?_ _ _
    exact ⟨rfl, rfl, rfl⟩
  · refine lone_become ?_ _ _
    exact ⟨rfl, rfl, rfl⟩

theorem IngestWorker.step_lone (w : IngestWorker) : Lone pid s (w.step s pid c) := by
  unfold IngestWorker.step
  split
  · split
    · exact ((Beside.refl s).finish _).toLone
    · exact (bare_become _ _ _).toLone
  · exact IngestWorker.fetch_lone _ _
  · unfold IngestWorker.store
    split
    · exact (bare_become _ _ _).toLone
    · split
      all_goals
        next heq => exact ((beside_transact heq).become _ _).toLone
  · exact (bare_transact _ _ _ _).toLone
  · exact (bare_transact _ _ _ _).toLone

theorem ReaperPhase.start_bare : Bare pid s (ReaperPhase.start s pid c) := bare_transact _ _ _ _

theorem ReaperPhase.step_lone (phase : ReaperPhase) : Lone pid s (phase.step s pid c) := by
  cases phase with
  | claiming =>
      simp only [ReaperPhase.step]
      split
      next heq => exact ((beside_transact heq).finish _).toLone
      next heq => exact ((beside_transact heq).become _ _).toLone
  | deleting tombstones =>
      cases tombstones with
      | nil => exact ((Beside.refl s).finish _).toLone
      | cons t rest =>
          simp only [ReaperPhase.step, ReaperPhase.remove]
          split
          · refine lone_become ?_ _ _
            exact ⟨rfl, rfl, rfl⟩
          · split
            · exact (bare_become _ _ _).toLone
            · refine lone_become ?_ _ _
              exact ⟨rfl, rfl, rfl⟩
  | finishing t rest => exact (bare_transact _ _ _ _).toLone
  | retrying t name rest => exact (bare_transact _ _ _ _).toLone

theorem UploadHandler.start_lone {filename contentType : Option JsString}
    (hs : UploadHandler.start rt s pid filename contentType c = some s') : Lone pid s s' := by
  unfold UploadHandler.start at hs
  split at hs
  · dsimp only at hs
    split at hs
    · cases hs
      exact ⟨rfl, rfl, fun _ _ => rfl⟩
    · cases hs
      refine lone_become ?_ _ _
      exact ⟨rfl, rfl, rfl⟩
  · cases hs

theorem UploadHandler.step_bare (h : UploadHandler) : Bare pid s (h.step s pid c) := by
  unfold UploadHandler.step
  split
  · refine Beside.finish ?_ _
    exact ⟨rfl, rfl, rfl, rfl⟩
  split
  · exact bare_become _ _ _
  split
  next heq => exact (beside_transact heq).finish _
  next heq => exact (beside_transact heq).become _ _

/-! ### Steps of the system -/

variable [DecidableEq Digest]

theorem runProc_lone {p : Proc Digest} (hs : runProc rt s pid c p = some s') : Lone pid s s' := by
  cases p with
  | send h => exact (SendHandler.step_bare hs).toLone
  | batchDrain w => exact (BatchWorker.step_bare hs).toLone
  | entryDrain w => exact (EntryWorker.step_bare hs).toLone
  | receive h => exact (ReceiveHandler.step_bare hs).toLone
  | ingest w =>
      cases hs
      exact IngestWorker.step_lone w
  | reaper phase =>
      cases hs
      exact ReaperPhase.step_lone phase
  | upload h =>
      cases hs
      exact (UploadHandler.step_bare h).toLone

omit [DecidableEq Digest] in
theorem startJob_lone {job : Job} (hs : startJob rt s pid c job = some s') : Lone pid s s' := by
  cases job with
  | send request idempotencyKey =>
      simp only [startJob] at hs
      split at hs
      · cases hs
        exact (bare_become _ _ _).toLone
      · cases hs
  | batchDrain limit =>
      simp only [startJob] at hs
      split at hs
      · cases hs
        exact (BatchWorker.start_bare _).toLone
      · cases hs
  | entryDrain limit =>
      simp only [startJob] at hs
      split at hs
      · cases hs
        exact (bare_become _ _ _).toLone
      · cases hs
  | receive svixId event =>
      cases hs
      exact (bare_become _ _ _).toLone
  | ingest =>
      simp only [startJob] at hs
      split at hs
      · cases hs
        exact IngestWorker.start_bare.toLone
      · cases hs
  | reaper =>
      simp only [startJob] at hs
      split at hs
      · cases hs
        exact ReaperPhase.start_bare.toLone
      · cases hs
  | upload filename contentType => exact UploadHandler.start_lone hs

/-- The process that an action belongs to. -/
def Action.pid? : Action Digest → Option ℕ
  | .start pid _ _ | .run pid _ | .crash pid => some pid
  | _ => none

/-- A step leaves every process alone that it does not belong to. -/
theorem step_others {a : Action Digest} (hs : step rt s a = some s') {q : ℕ}
    (hq : a.pid? ≠ some q) :
    s'.procs.get? q = s.procs.get? q := by
  cases a with
  | start pid job c =>
      simp only [step] at hs
      split at hs
      · exact (startJob_lone hs).others q (by rintro rfl; exact hq rfl)
      · cases hs
  | run pid c =>
      obtain ⟨p, -, hs⟩ := Option.bind_eq_some_iff.mp hs
      exact (runProc_lone hs).others q (by rintro rfl; exact hq rfl)
  | crash pid =>
      cases hs
      exact ((Beside.refl s).finish pid).others q (by rintro rfl; exact hq rfl)
  | reach callId accepted answer =>
      obtain ⟨provider, -, rfl⟩ := Option.map_eq_some_iff.mp hs
      rfl
  | _ =>
      cases hs
      rfl

end ResendConversation
