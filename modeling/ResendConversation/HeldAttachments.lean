import ResendConversation.AttachmentClaims
import ResendConversation.StepStatements

/-! # Held attachments

An ingest worker holds the attachments that it claimed and has not finished.  No step of another
process changes what is held. -/

namespace ResendConversation

open Foundation Tx

variable {Digest : Type} {rt : Runtime Digest} {s s' : System Digest} {pid : ℕ} {c : Choice Digest}

/-! ### Held attachments -/

def IngestPhase.attachment : IngestPhase → ClaimedAttachment
  | .fetching a => a
  | .storing a _ => a
  | .lost a => a
  | .failing a _ => a

/-- The attachment whose fetch is still to come. -/
def IngestPhase.unfetched : IngestPhase → List ClaimedAttachment
  | .fetching a => [a]
  | _ => []

/-- The claimed attachments that a process has not finished. -/
def Proc.held : Proc Digest → List ClaimedAttachment
  | .ingest w => (w.phase.map IngestPhase.attachment).toList ++ w.queue
  | _ => []

/-- The claimed attachments that a process has not fetched. -/
def Proc.unfetched : Proc Digest → List ClaimedAttachment
  | .ingest w => (w.phase.map IngestPhase.unfetched).getD [] ++ w.queue
  | _ => []

/-- The attachments that the process with the given number holds. -/
def System.heldBy (s : System Digest) (pid : ℕ) : List ClaimedAttachment :=
  ((s.procs.get? pid).map fun p => p.2.held).getD []

def System.unfetchedBy (s : System Digest) (pid : ℕ) : List ClaimedAttachment :=
  ((s.procs.get? pid).map fun p => p.2.unfetched).getD []

theorem System.Runs.heldBy {p : Proc Digest} (h : s.Runs pid p) : s.heldBy pid = p.held := by
  rw [System.heldBy, show s.procs.get? pid = some (pid, p) from h]
  rfl

theorem System.Runs.unfetchedBy {p : Proc Digest} (h : s.Runs pid p) :
    s.unfetchedBy pid = p.unfetched := by
  rw [System.unfetchedBy, show s.procs.get? pid = some (pid, p) from h]
  rfl

/-! ### Other processes -/

/-- No ingest worker has the given number. -/
def System.Spare (s : System Digest) (pid : ℕ) : Prop := ∀ w, ¬s.Runs pid (.ingest w)

theorem System.Spare.held (h : s.Spare pid) : s.heldBy pid = [] ∧ s.unfetchedBy pid = [] := by
  unfold System.heldBy System.unfetchedBy
  cases hp : s.procs.get? pid with
  | none => simp
  | some p =>
      have hruns : s.Runs pid p.2 := hp.trans (congrArg some (Prod.ext (Table.key_of_get? hp) rfl))
      simp only [Option.map_some, Option.getD_some]
      cases hproc : p.2 with
      | ingest w =>
          rw [hproc] at hruns
          exact absurd hruns (h w)
      | _ => simp [Proc.held, Proc.unfetched]

def Proc.ingests : Proc Digest → Bool
  | .ingest _ => true
  | _ => false

theorem Proc.Idle.ingests {p : Proc Digest} (h : p.Idle) : p.ingests = false := by
  cases p with
  | ingest w =>
      have hfiles : (Proc.ingest w : Proc Digest).files = false := h.2
      cases hfiles
  | _ => rfl

namespace System

theorem spare_become {t : System Digest} {p : Proc Digest} (h : p.ingests = false) :
    (t.become pid p).Spare pid := by
  intro w hw
  rcases runs_become.mp hw with ⟨-, heq⟩ | ⟨hne, -⟩
  · rw [← heq] at h
    cases h
  · exact hne rfl

theorem spare_finish {t : System Digest} : (t.finish pid).Spare pid := by
  intro w hw
  exact (runs_finish.mp hw).1 rfl

theorem Spare.beside {t : System Digest} (h : s.Spare pid) (ht : Beside s t) : t.Spare pid := by
  intro w hw
  refine h w ?_
  rw [Runs, ← ht.procs]
  exact hw

end System

open ResendConversation.System

namespace SendHandler

variable {h : SendHandler Digest}

theorem answerStored_ingests [DecidableEq Digest] (m : EmailMessage Digest) (conflict : JsString) :
    (h.answerStored rt m conflict).ingests = false := by
  unfold answerStored
  repeat' split
  all_goals rfl

theorem afterTransaction_ingests (createdAt : Time) (result : Except TxError Uuid)
    (db : Database Digest) (onUnique : SendPhase Digest) :
    (h.afterTransaction createdAt result db onUnique).ingests = false := by
  unfold afterTransaction
  repeat' split
  all_goals rfl

theorem raced_ingests [DecidableEq Digest] : (h.raced rt s).ingests = false := by
  unfold raced
  split
  · exact answerStored_ingests _ _
  · exact (afterRace_idle h).ingests

theorem settle_spare (d : Delivery) (result : Except SendError JsString) :
    (h.settle s pid d result).Spare pid := by
  unfold settle
  repeat' split
  all_goals exact spare_become rfl

theorem beginDelivery_spare {d : Delivery} {attachments : List SendEmailAttachmentInput}
    (hs : h.beginDelivery s pid d attachments = some s') : s'.Spare pid := by
  unfold beginDelivery at hs
  split at hs
  · cases hs
  split at hs
  · cases hs
    exact spare_become rfl
  split at hs
  · cases hs
    exact spare_become rfl
  split at hs
  · cases hs
    exact settle_spare _ _
  split at hs
  · cases hs
    exact spare_become rfl
  · cases hs
    exact settle_spare _ _

theorem hydrateSent_spare (hspare : s.Spare pid) (d : Delivery) (m : EmailMessage Digest) :
    (h.hydrateSent rt s pid d m c).Spare pid := by
  unfold hydrateSent
  split
  · exact spare_become rfl
  split
  · exact spare_become rfl
  split
  next heq => exact spare_become rfl
  next heq => exact hspare.beside (beside_transact heq)

theorem retrieveMessageId_spare (parent stored : EmailMessage Digest) :
    (h.retrieveMessageId rt s pid parent stored c).Spare pid := by
  unfold retrieveMessageId
  split
  · exact spare_become rfl
  dsimp only
  split
  · exact spare_become (withParent_idle _ _ _).ingests
  · exact spare_become rfl

theorem reopenTransact_spare {conversation : EmailConversation}
    (hs : h.reopenTransact rt s pid conversation c = some s') : s'.Spare pid := by
  unfold reopenTransact at hs
  split at hs
  · dsimp only at hs
    split at hs
    · cases hs
      exact spare_become rfl
    · cases hs
      exact spare_become (afterTransaction_ingests _ _ _ _)
    · cases hs
      exact spare_become (afterTransaction_ingests _ _ _ _)
  · cases hs

theorem loadParent_spare (hs : h.loadParent s pid = some s') : s'.Spare pid := by
  unfold loadParent at hs
  split at hs
  · repeat' split at hs
    all_goals
      cases hs
      exact spare_become rfl
  · cases hs

theorem ensureMessageId_spare (parent : EmailMessage Digest) :
    (h.ensureMessageId s pid parent).Spare pid := by
  unfold ensureMessageId
  repeat' split
  · exact spare_become rfl
  · exact spare_become (withParent_idle _ _ _).ingests
  · exact spare_become rfl
  · exact spare_become rfl

theorem recover_spare (messageId : Uuid) : (h.recover s pid messageId).Spare pid := by
  unfold recover
  repeat' split
  all_goals exact spare_become rfl

theorem reload_spare (messageId : Uuid) (mode : ReloadMode) :
    (h.reload s pid messageId mode).Spare pid := by
  unfold reload
  repeat' split
  all_goals exact spare_become rfl

theorem deliver_spare (hspare : s.Spare pid) {d : Delivery} {phase : DeliveryPhase Digest}
    (hs : h.deliver rt s pid d c phase = some s') : s'.Spare pid := by
  cases phase with
  | prepare =>
      simp only [deliver] at hs
      split at hs
      all_goals
        cases hs
        exact spare_become rfl
  | lock attachments =>
      simp only [deliver] at hs
      split at hs
      · cases hs
        exact spare_become rfl
      · exact beginDelivery_spare hs
  | calling m callId =>
      simp only [deliver] at hs
      split at hs
      · cases hs
        exact spare_become rfl
      split at hs
      · cases hs
      · cases hs
        exact settle_spare _ _
  | hydrate m =>
      cases hs
      exact hydrateSent_spare hspare _ _

theorem step_spare [DecidableEq Digest] (hspare : s.Spare pid) (hs : h.step rt s pid c = some s') :
    s'.Spare pid := by
  unfold step at hs
  split at hs
  next =>
    split at hs
    · cases hs
      exact spare_become (answerStored_ingests _ _)
    · cases hs
      exact spare_become rfl
  next =>
    split at hs
    all_goals
      cases hs
      exact spare_become rfl
  next => exact loadParent_spare hs
  next =>
    cases hs
    exact ensureMessageId_spare _
  next =>
    cases hs
    exact retrieveMessageId_spare _ _
  next =>
    cases hs
    exact spare_become (afterTransaction_ingests _ _ _ _)
  next =>
    cases hs
    exact spare_become raced_ingests
  next =>
    repeat' split at hs
    all_goals
      cases hs
      try exact spare_become rfl
  next => exact reopenTransact_spare hs
  next =>
    split at hs
    · cases hs
      exact spare_become (answerStored_ingests _ _)
    · cases hs
      exact spare_become rfl
  next =>
    cases hs
    exact recover_spare _
  next =>
    cases hs
    exact spare_become rfl
  next => exact deliver_spare hspare hs
  next =>
    cases hs
    exact reload_spare _ _
  next => cases hs

end SendHandler

theorem BatchWorker.start_spare (limit : ℕ) : (BatchWorker.start s pid limit c).Spare pid := by
  unfold BatchWorker.start
  split
  all_goals exact spare_become rfl

theorem BatchWorker.step_spare {w : BatchWorker Digest} (hs : w.step s pid c = some s') :
    s'.Spare pid := by
  unfold BatchWorker.step at hs
  split at hs
  · cases hs
    unfold BatchWorker.send
    dsimp only
    repeat' split
    all_goals exact spare_become rfl
  · split at hs
    · cases hs
    · cases hs
      exact spare_become rfl
  · split at hs
    all_goals
      cases hs
      exact spare_become rfl
  · cases hs

theorem EntryWorker.step_spare {w : EntryWorker Digest} (hs : w.step s pid c = some s') :
    s'.Spare pid := by
  unfold EntryWorker.step at hs
  split at hs
  · cases hs
    exact spare_become rfl
  · cases hs
    unfold EntryWorker.claim
    split
    all_goals exact spare_become rfl
  · cases hs
    unfold EntryWorker.send
    dsimp only
    repeat' split
    all_goals exact spare_become rfl
  · split at hs
    · cases hs
    · cases hs
      exact spare_become rfl
  · cases hs
    unfold EntryWorker.finish
    repeat' split
    all_goals exact spare_become rfl
  · cases hs

theorem ReceiveHandler.step_spare [DecidableEq Digest] {h : ReceiveHandler Digest}
    (hs : h.step rt s pid c = some s') : s'.Spare pid := by
  unfold ReceiveHandler.step at hs
  split at hs
  next =>
    cases hs
    exact spare_become rfl
  next =>
    cases hs
    exact spare_become (ReceiveHandler.inspect_idle _).ingests
  next =>
    cases hs
    exact spare_become (ReceiveHandler.fetch_idle _).ingests
  next =>
    cases hs
    unfold ReceiveHandler.hydrate
    repeat' split
    all_goals exact spare_become rfl
  next =>
    cases hs
    unfold ReceiveHandler.project
    repeat' split
    all_goals exact spare_become rfl
  next =>
    split at hs
    all_goals
      cases hs
      exact spare_become rfl
  next => cases hs
  next => cases hs

theorem ReaperPhase.step_spare (phase : ReaperPhase) : (phase.step s pid c).Spare pid := by
  cases phase with
  | claiming =>
      simp only [ReaperPhase.step]
      split
      · exact spare_finish
      · exact spare_become rfl
  | deleting tombstones =>
      cases tombstones with
      | nil => exact spare_finish
      | cons t rest =>
          simp only [ReaperPhase.step, ReaperPhase.remove]
          split
          all_goals exact spare_become rfl
  | finishing t rest => exact spare_become rfl
  | retrying t name rest => exact spare_become rfl

theorem UploadHandler.start_spare (hspare : s.Spare pid) {filename contentType : Option JsString}
    (hs : UploadHandler.start rt s pid filename contentType c = some s') : s'.Spare pid := by
  unfold UploadHandler.start at hs
  split at hs
  · dsimp only at hs
    split at hs
    · cases hs
      exact fun w hw => hspare w hw
    · cases hs
      exact spare_become rfl
  · cases hs

theorem UploadHandler.step_spare (h : UploadHandler) : (h.step s pid c).Spare pid := by
  unfold UploadHandler.step
  split
  · exact spare_finish
  split
  · exact spare_become rfl
  split
  · exact spare_finish
  · exact spare_become rfl

theorem startJob_spare (hspare : s.Spare pid) {job : Job} (hjob : job ≠ .ingest)
    (hs : startJob rt s pid c job = some s') : s'.Spare pid := by
  cases job with
  | send request idempotencyKey =>
      simp only [startJob] at hs
      split at hs
      · cases hs
        exact spare_become rfl
      · cases hs
  | batchDrain limit =>
      simp only [startJob] at hs
      split at hs
      · cases hs
        exact BatchWorker.start_spare _
      · cases hs
  | entryDrain limit =>
      simp only [startJob] at hs
      split at hs
      · cases hs
        exact spare_become rfl
      · cases hs
  | receive svixId event =>
      cases hs
      exact spare_become rfl
  | ingest => exact absurd rfl hjob
  | reaper =>
      simp only [startJob] at hs
      split at hs
      · cases hs
        exact spare_become rfl
      · cases hs
  | upload filename contentType => exact UploadHandler.start_spare hspare hs

section
variable [DecidableEq Digest]

theorem runProc_spare {p : Proc Digest} (hruns : s.Runs pid p) (hp : ∀ w, p ≠ .ingest w)
    (hs : runProc rt s pid c p = some s') : s'.Spare pid := by
  have hspare : s.Spare pid := fun w hw => hp w (hruns.unique hw)
  cases p with
  | send h => exact SendHandler.step_spare hspare hs
  | batchDrain w => exact BatchWorker.step_spare hs
  | entryDrain w => exact EntryWorker.step_spare hs
  | receive h => exact ReceiveHandler.step_spare hs
  | ingest w => exact absurd rfl (hp w)
  | reaper phase =>
      cases hs
      exact ReaperPhase.step_spare phase
  | upload h =>
      cases hs
      exact UploadHandler.step_spare h

/-- Only the ingest runtime changes what is held. -/
theorem held_of_step {a : Action Digest} (hs : step rt s a = some s')
    (hstart : ∀ pid c, a ≠ .start pid .ingest c)
    (hrun : ∀ pid c w, a = .run pid c → ¬s.Runs pid (.ingest w))
    (hcrash : ∀ pid, a ≠ .crash pid) (q : ℕ) :
    s'.heldBy q = s.heldBy q ∧ s'.unfetchedBy q = s.unfetchedBy q := by
  by_cases hq : a.pid? = some q
  · -- the process is no ingest worker, before the step and after it
    have hspare : s.Spare q ∧ s'.Spare q := by
      cases a with
      | start pid job c =>
          obtain rfl : pid = q := Option.some.inj hq
          simp only [step] at hs
          split at hs
          next hfree =>
            have hbefore : s.Spare pid := by
              intro w hw
              rw [System.Runs, hfree] at hw
              cases hw
            exact ⟨hbefore, startJob_spare hbefore (fun h => hstart pid c (by rw [h])) hs⟩
          next => cases hs
      | run pid c =>
          obtain rfl : pid = q := Option.some.inj hq
          obtain ⟨p, hp, hs⟩ := Option.bind_eq_some_iff.mp hs
          have hruns : s.Runs pid p.2 :=
            hp.trans (congrArg some (Prod.ext (Table.key_of_get? hp) rfl))
          exact ⟨fun w => hrun pid c w rfl,
            runProc_spare hruns (fun w h => hrun pid c w rfl (h ▸ hruns)) hs⟩
      | crash pid => exact absurd rfl (hcrash pid)
      | _ => cases hq
    rw [hspare.1.held.1, hspare.1.held.2, hspare.2.held.1, hspare.2.held.2]
    exact ⟨rfl, rfl⟩
  · have hothers := step_others hs hq
    rw [System.heldBy, System.heldBy, System.unfetchedBy, System.unfetchedBy, hothers]
    exact ⟨rfl, rfl⟩

end

end ResendConversation
