import ResendConversation.Settlement
import ResendConversation.System

/-! # Effects

What one step of the system can do to the send lanes, said once: `Effect` has one constructor
for every kind of step that the database, the provider or a process at work on a send can
see, and `quiet` for all others.  Every invariant of the send lanes is an analysis of
`Effect`; the transition function itself is taken apart only in the proof of
`step_effect`. -/

namespace ResendConversation

open Foundation Tx

variable {Digest : Type}

/-! ### Processes at work -/

/-- The request and the message of a handler that delivers, or is about to. -/
def Proc.delivers : Proc Digest → Option (SendRequest × Uuid)
  | .send h =>
      match h.phase with
      | .recover id => some (h.request, id)
      | .expire id => some (h.request, id)
      | .deliver d .prepare => some (h.request, d.messageId)
      | .deliver d (.lock _) => some (h.request, d.messageId)
      | .deliver d (.calling _ _) => some (h.request, d.messageId)
      | _ => none
  | _ => none

/-- The conversation that a handler is about to reopen. -/
def Proc.reopens : Proc Digest → Option EmailConversation
  | .send h =>
      match h.phase with
      | .reopenTransact conversation => some conversation
      | _ => none
  | _ => none

/-- The batch that a worker claimed. -/
def Proc.batch : Proc Digest → Option (ClaimedBatch Digest × BatchPhase Digest)
  | .batchDrain (.working batch phase) => some (batch, phase)
  | _ => none

/-- The entry of the attachment lane that a worker claimed. -/
def Proc.entry : Proc Digest → Option (ClaimedEntry Digest × EntryPhase Digest)
  | .entryDrain (.working _ _ entry phase) => some (entry, phase)
  | _ => none

/-- A process that acts on a send. -/
def Proc.sends (p : Proc Digest) : Bool :=
  p.delivers.isSome || p.reopens.isSome || p.batch.isSome || p.entry.isSome

/-- A process that acts on stored objects. -/
def Proc.files : Proc Digest → Bool
  | .ingest _ | .reaper _ | .upload _ => true
  | _ => false

/-! ### Systems around a step -/

namespace System

/-- The process with the given number. -/
def Runs (s : System Digest) (pid : ℕ) (p : Proc Digest) : Prop := s.procs.get? pid = some (pid, p)

theorem Runs.unique {s : System Digest} {pid : ℕ} {p q : Proc Digest} (hp : s.Runs pid p)
    (hq : s.Runs pid q) : p = q := by
  rw [Runs, hp] at hq
  cases hq
  rfl

theorem runs_iff_mem {s : System Digest} {pid : ℕ} {p : Proc Digest} :
    s.Runs pid p ↔ (pid, p) ∈ s.procs := by
  rw [Runs, Table.mem_iff_get?]

theorem runs_become {s : System Digest} {pid q : ℕ} {p p' : Proc Digest} :
    (s.become pid p).Runs q p' ↔ (q = pid ∧ p' = p) ∨ (q ≠ pid ∧ s.Runs q p') := by
  simp only [Runs, become, Table.get?_set]
  split
  next h =>
    subst h
    simp only [Option.some.injEq, Prod.mk.injEq, true_and, ne_eq, not_true_eq_false, false_and,
      or_false]
    exact eq_comm
  next h => simp [Ne.symm h]

theorem runs_finish {s : System Digest} {pid q : ℕ} {p : Proc Digest} :
    (s.finish pid).Runs q p ↔ q ≠ pid ∧ s.Runs q p := by
  simp only [Runs, finish, Table.get?_delete, Option.filter_eq_some_iff]
  constructor
  · rintro ⟨h, hq⟩
    exact ⟨by simpa using hq, h⟩
  · rintro ⟨hq, h⟩
    exact ⟨h, by simpa using hq⟩

@[simp] theorem become_db (s : System Digest) (pid : ℕ) (p : Proc Digest) :
    (s.become pid p).db = s.db := rfl

@[simp] theorem become_now (s : System Digest) (pid : ℕ) (p : Proc Digest) :
    (s.become pid p).now = s.now := rfl

@[simp] theorem become_provider (s : System Digest) (pid : ℕ) (p : Proc Digest) :
    (s.become pid p).provider = s.provider := rfl

@[simp] theorem become_leases (s : System Digest) (pid : ℕ) (p : Proc Digest) :
    (s.become pid p).leases = s.leases := rfl

@[simp] theorem become_objects (s : System Digest) (pid : ℕ) (p : Proc Digest) :
    (s.become pid p).objects = s.objects := rfl

@[simp] theorem finish_db (s : System Digest) (pid : ℕ) : (s.finish pid).db = s.db := rfl

/-- The step is one of the ingest runtime, the reaper or an upload. -/
def Files (s : System Digest) (a : Action Digest) : Prop :=
  (∃ pid job c, a = .start pid job c ∧
    (job = .ingest ∨ job = .reaper ∨ ∃ name type, job = .upload name type)) ∨
    ∃ pid c p, a = .run pid c ∧ s.Runs pid p ∧ p.files = true

/-- A transaction commits or changes nothing. -/
theorem transact_cases {α : Type} (s : System Digest) (x : Transaction Digest α) :
    (∃ a db', x s.db = .ok (a, db') ∧ s.transact x = (.ok a, { s with db := db' })) ∨
      ∃ e, s.transact x = (.error e, s) := by
  unfold transact execute
  cases h : x s.db with
  | ok r => exact .inl ⟨r.1, r.2, rfl, rfl⟩
  | error e => exact .inr ⟨e, rfl⟩

/-- The clock did not run ahead of the system. -/
theorem clock_le (s : System Digest) (reading : Option Time) : s.clock reading ≤ s.now :=
  min_le_right _ _

end System

/-! ### Effects -/

/-- The call of a synchronous delivery. -/
def syncCall (s : System Digest) (d : Delivery) (m : EmailMessage Digest)
    (attachments : List SendEmailAttachmentInput) : ProviderCall where
  id := s.db.nextId
  key := singleSendKey m
  messageIds := [m.id]
  payload := [buildSendEmailInput m attachments]
  windowStart := m.createdAt
  checkedAt := d.checkedAt

/-- The call of a batch worker. -/
def batchCall (s : System Digest) (batch : ClaimedBatch Digest) (claimedAt : Time) :
    ProviderCall where
  id := s.db.nextId
  key := .conversationOutbox batch.id
  messageIds := batch.messageIds
  payload := batch.messages.map fun m => buildSendEmailInput m []
  windowStart := batch.firstAttemptAt
  checkedAt := if 1 < batch.attemptCount then s.now else claimedAt

/-- The call of a worker of the attachment lane. -/
def entryCall (s : System Digest) (entry : ClaimedEntry Digest) (claimedAt : Time)
    (attachments : List SendEmailAttachmentInput) : ProviderCall where
  id := s.db.nextId
  key := .attachmentOutbox entry.message.id
  messageIds := [entry.message.id]
  payload := [buildSendEmailInput entry.message attachments]
  windowStart := entry.firstAttemptAt
  checkedAt := if 1 < entry.attemptCount then s.now else claimedAt

namespace System

/-- Draws the identifier of a call and places it. -/
def call (s : System Digest) (call : ProviderCall) : System Digest :=
  { s with
    db := { s.db with nextId := s.db.nextId + 1 }
    provider := s.provider.place call }

/-- The observation of a call. -/
def observe (s : System Digest) (callId : Uuid) (observation : Observation) : System Digest :=
  { s with provider := s.provider.observe callId observation }

/-- Records the lease of a claim. -/
def issue (s : System Digest) (target : LeaseTarget) (token : Uuid) : System Digest :=
  { s with leases := s.leases ++ [(target, token)] }

end System

/-- The view of a message after its delivery observed the result of its call. -/
def SendView.settled (result : Except SendError JsString) : SendView Digest → SendView Digest :=
  match result with
  | .ok id => SendView.sent id
  | .error error => SendView.thrown error

variable [DecidableEq Digest]

/-- What one step can do to the send lanes. -/
inductive Effect (rt : Runtime Digest) (s : System Digest) (a : Action Digest)
    (s' : System Digest) :
    Prop
  /-- Nothing that the send lanes or the files can see. -/
  | quiet (passive : Passive s.db s'.db) (provider : s'.provider = s.provider)
      (leases : s'.leases = s.leases) (objects : s'.objects = s.objects) (now : s.now ≤ s'.now)
      (retires : ∀ pid p, s'.Runs pid p → p.sends = true ∨ p.files = true → s.Runs pid p)
  /-- A step of the ingest runtime, the reaper or an upload. -/
  | filed (background : Background s.db s'.db) (provider : s'.provider = s.provider)
      (leases : s'.leases = s.leases) (now : s'.now = s.now)
      (retires : ∀ pid p, s'.Runs pid p → p.sends = true → s.Runs pid p) (action : s.Files a)
  | reached (callId : Uuid) (accepted : Option (List JsString)) (answer : Observation)
      (provider : Provider) (action : a = .reach callId accepted answer)
      (reach : s.provider.reach s.now callId accepted answer = some provider)
      (eq : s' = { s with provider := provider })
  | deleted (c : Uuid) (db' : Database Digest) (action : a = .operator (.deleteConversation c))
      (deletion : ConversationDeleted c s.db db') (eq : s' = { s with db := db' })
  | stored (pid : ℕ) (c : Choice Digest) (h : SendHandler Digest)
      (reopened : Option EmailConversation)
      (db' : Database Digest) (id : Uuid) (p : Proc Digest) (action : a = .run pid c)
      (runs : s.Runs pid (.send h)) (reopens : ∀ r, reopened = some r →
        (Proc.send h).reopens = some r)
      (stores : StoredBy (h.context rt s c) reopened s.db db' id)
      (next : if h.request.queued then p.sends = false ∧ p.files = false
        else p = h.goto (.deliver ⟨id, false, (h.context rt s c).createdAt⟩ .prepare))
      (eq : s' = { s with db := db' }.become pid p)
  /-- A repeated request finds its message, which it is going to recover. -/
  | engaged (pid : ℕ) (c : Choice Digest) (h : SendHandler Digest) (m : EmailMessage Digest)
      (action : a = .run pid c) (runs : s.Runs pid (.send h)) (found : m ∈ s.db.messages)
      (hash : m.requestHash = some (rt.hashSendRequest h.request)) (sync : h.request.queued = false)
      (eq : s' = s.become pid (h.goto (.recover m.id)))
  | reopening (pid : ℕ) (c : Choice Digest) (h : SendHandler Digest)
      (conversation : EmailConversation)
      (action : a = .run pid c) (runs : s.Runs pid (.send h))
      (found : conversation ∈ s.db.conversations) (topic : conversation.topicType.isSome = true)
      (eq : s' = s.become pid (h.goto (.reopenTransact conversation)))
  | expiring (pid : ℕ) (c : Choice Digest) (h : SendHandler Digest) (id : Uuid)
      (action : a = .run pid c) (runs : s.Runs pid (.send h)) (phase : h.phase = .recover id)
      (eq : s' = s.become pid (h.goto (.expire id)))
  | resumed (pid : ℕ) (c : Choice Digest) (h : SendHandler Digest) (m : EmailMessage Digest)
      (action : a = .run pid c) (runs : s.Runs pid (.send h)) (phase : h.phase = .recover m.id)
      (found : m ∈ s.db.messages) (window : hasProviderWindowExpired s.now m.createdAt = false)
      (eq : s' = s.become pid (h.goto (.deliver ⟨m.id, true, s.now⟩ .prepare)))
  | prepared (pid : ℕ) (c : Choice Digest) (h : SendHandler Digest) (d : Delivery)
      (attachments : List SendEmailAttachmentInput) (action : a = .run pid c)
      (runs : s.Runs pid (.send h)) (phase : h.phase = .deliver d .prepare)
      (eq : s' = s.become pid (h.goto (.deliver d (.lock attachments))))
  | expired (pid : ℕ) (c : Choice Digest) (h : SendHandler Digest) (id : Uuid)
      (db' : Database Digest)
      (p : Proc Digest) (action : a = .run pid c) (runs : s.Runs pid (.send h))
      (phase : h.phase = .expire id) (rewrite : Rewrite (onMessage id SendView.expired) s.db db')
      (next : p.sends = false ∧ p.files = false) (eq : s' = { s with db := db' }.become pid p)
  | called (pid : ℕ) (c : Choice Digest) (h : SendHandler Digest) (d : Delivery)
      (attachments : List SendEmailAttachmentInput) (m : EmailMessage Digest)
        (action : a = .run pid c)
      (runs : s.Runs pid (.send h)) (phase : h.phase = .deliver d (.lock attachments))
      (free : ∀ q p, s.Runs q p → p.holdsLock d.messageId = false)
      (found : s.db.messages.get? d.messageId = some m) (pending : m.state = .pending)
      (eq : s' = (s.call (syncCall s d m attachments)).become pid
        (h.goto (.deliver d (.calling m s.db.nextId))))
  /-- A delivery that throws under its lock before it has called the provider. -/
  | refused (pid : ℕ) (c : Choice Digest) (h : SendHandler Digest) (d : Delivery)
      (attachments : List SendEmailAttachmentInput) (m : EmailMessage Digest) (error : SendError)
      (db' : Database Digest) (p : Proc Digest) (action : a = .run pid c)
        (runs : s.Runs pid (.send h))
      (phase : h.phase = .deliver d (.lock attachments))
      (free : ∀ q p, s.Runs q p → p.holdsLock d.messageId = false)
      (found : s.db.messages.get? d.messageId = some m) (pending : m.state = .pending)
      (cause : (m.idempotencyKey = none ∧ error = missingIdempotencyKey) ∨
        (s.config.resendApiKey = false ∧ error = missingApiKey))
      (rewrite : Rewrite (onMessage d.messageId (SendView.thrown error)) s.db db')
      (next : p.sends = false ∧ p.files = false) (eq : s' = { s with db := db' }.become pid p)
  /-- The end of the transaction of a delivery, which may roll back. -/
  | settled (pid : ℕ) (c : Choice Digest) (h : SendHandler Digest) (d : Delivery)
      (m : EmailMessage Digest) (callId : Uuid) (observation : Observation) (db' : Database Digest)
      (p : Proc Digest) (action : a = .run pid c) (runs : s.Runs pid (.send h))
      (phase : h.phase = .deliver d (.calling m callId)) (waits : c.fails = false)
      (observed : s.provider.observation callId c.lost = some observation)
      (rewrite : db' = s.db ∨
        Rewrite (onMessage d.messageId (SendView.settled (sendResult observation))) s.db db')
      (next : p.sends = false ∧ p.files = false)
      (eq : s' = { s.observe callId observation with db := db' }.become pid p)
  | batchSwept (pid : ℕ) (p : Proc Digest) (next : p.sends = false ∧ p.files = false)
      (eq : s' = { s with db := swept s.db }.become pid p)
  | batchClaimed (pid : ℕ) (c : Choice Digest) (loaded : LoadedBatch Digest) (db' : Database Digest)
      (p : Proc Digest) (claim : BatchClaim (s.clock c.readAt) s.db db' loaded)
      (free : s.procs.get? pid = none)
      (next : p = match checkClaim s.db.nextId loaded with
        | .ok batch => .batchDrain (.working batch (.claimed (s.clock c.readAt)))
        | .error error => .batchDrain (.returned (.error error)))
      (eq : s' = ({ s with db := db' }.issue (.batch loaded.batch.id) s.db.nextId).become pid p)
  /-- A batch worker decides without a call. -/
  | batchSkipped (pid : ℕ) (c : Choice Digest) (batch : ClaimedBatch Digest) (claimedAt : Time)
      (decision : BatchDecision) (action : a = .run pid c)
      (runs : s.Runs pid (.batchDrain (.working batch (.claimed claimedAt))))
      (decided : decision = .indeterminate batchWindowExpired ∨
        decision = decideBatch s.now batch (.threw missingApiKey))
      (eq : s' = s.become pid (.batchDrain (.working batch (.ending decision))))
  | batchCalled (pid : ℕ) (c : Choice Digest) (batch : ClaimedBatch Digest) (claimedAt : Time)
      (action : a = .run pid c)
      (runs : s.Runs pid (.batchDrain (.working batch (.claimed claimedAt))))
      (window : ¬(1 < batch.attemptCount ∧
        hasProviderWindowExpired s.now batch.firstAttemptAt = true))
      (eq : s' = (s.call (batchCall s batch claimedAt)).become pid
        (.batchDrain (.working batch (.calling s.db.nextId))))
  | batchObserved (pid : ℕ) (c : Choice Digest) (batch : ClaimedBatch Digest) (callId : Uuid)
      (observation : Observation) (action : a = .run pid c)
      (runs : s.Runs pid (.batchDrain (.working batch (.calling callId))))
      (observed : s.provider.observation callId c.lost = some observation)
      (eq : s' = (s.observe callId observation).become pid
        (.batchDrain (.working batch (.ending (decideBatch s.now batch observation)))))
  | batchFinalized (pid : ℕ) (c : Choice Digest) (batch : ClaimedBatch Digest)
      (decision : BatchDecision) (db' : Database Digest) (p : Proc Digest) (action : a = .run pid c)
      (runs : s.Runs pid (.batchDrain (.working batch (.ending decision))))
      (finalized : BatchFinalized batch decision s.db db')
      (next : p.sends = false ∧ p.files = false) (eq : s' = { s with db := db' }.become pid p)
  | batchRescheduled (pid : ℕ) (c : Choice Digest) (batch : ClaimedBatch Digest)
      (decision : BatchDecision) (db' : Database Digest) (p : Proc Digest) (action : a = .run pid c)
      (runs : s.Runs pid (.batchDrain (.working batch (.ending decision))))
      (rescheduled : BatchRescheduled batch s.db db')
      (next : p.sends = false ∧ p.files = false) (eq : s' = { s with db := db' }.become pid p)
  | entrySwept (pid : ℕ) (p : Proc Digest) (next : p.sends = false ∧ p.files = false)
      (eq : s' = { s with db := sweptAttachments s.db }.become pid p)
  | entryClaimed (pid : ℕ) (c : Choice Digest) (remaining : ℕ)
      (result : AttachmentOutboxDrainResult)
      (entry : ClaimedEntry Digest) (e : EmailAttachmentOutboxEntry) (db' : Database Digest)
      (action : a = .run pid c) (runs : s.Runs pid (.entryDrain (.idle (remaining + 1) result)))
      (claim : EntryClaim (s.clock c.readAt) s.db db' entry e)
      (eq : s' = ({ s with db := db' }.issue (.entry entry.message.id) entry.leaseToken).become pid
        (.entryDrain (.working remaining result entry (.claimed (s.clock c.readAt)))))
  /-- A worker of the attachment lane decides without a call. -/
  | entrySkipped (pid : ℕ) (c : Choice Digest) (remaining : ℕ)
      (result : AttachmentOutboxDrainResult)
      (entry : ClaimedEntry Digest) (claimedAt : Time) (decision : EntryDecision)
      (action : a = .run pid c)
      (runs : s.Runs pid (.entryDrain (.working remaining result entry (.claimed claimedAt))))
      (decided : decision = .finalize .indeterminate entryWindowExpired ∨
        ∃ name message, decision = decideEntryError s.now entry (.other name message))
      (eq : s' = s.become pid (.entryDrain (.working remaining result entry (.ending decision))))
  | entryCalled (pid : ℕ) (c : Choice Digest) (remaining : ℕ) (result : AttachmentOutboxDrainResult)
      (entry : ClaimedEntry Digest) (claimedAt : Time) (attachments : List SendEmailAttachmentInput)
      (action : a = .run pid c)
      (runs : s.Runs pid (.entryDrain (.working remaining result entry (.claimed claimedAt))))
      (window : ¬(1 < entry.attemptCount ∧
        hasProviderWindowExpired s.now entry.firstAttemptAt = true))
      (eq : s' = (s.call (entryCall s entry claimedAt attachments)).become pid
        (.entryDrain (.working remaining result entry (.calling s.db.nextId))))
  | entryObserved (pid : ℕ) (c : Choice Digest) (remaining : ℕ)
      (result : AttachmentOutboxDrainResult)
      (entry : ClaimedEntry Digest) (callId : Uuid) (observation : Observation)
      (action : a = .run pid c)
      (runs : s.Runs pid (.entryDrain (.working remaining result entry (.calling callId))))
      (observed : s.provider.observation callId c.lost = some observation)
      (eq : s' = (s.observe callId observation).become pid
        (.entryDrain
          (.working remaining result entry (.ending (decideEntry s.now entry observation)))))
  | entryFinalized (pid : ℕ) (c : Choice Digest) (remaining : ℕ)
      (result : AttachmentOutboxDrainResult)
      (entry : ClaimedEntry Digest) (decision : EntryDecision) (db' : Database Digest)
      (p : Proc Digest) (action : a = .run pid c)
      (runs : s.Runs pid (.entryDrain (.working remaining result entry (.ending decision))))
      (finalized : EntryFinalized entry decision s.db db')
      (next : p.sends = false ∧ p.files = false) (eq : s' = { s with db := db' }.become pid p)
  | entryRescheduled (pid : ℕ) (c : Choice Digest) (remaining : ℕ)
      (result : AttachmentOutboxDrainResult) (entry : ClaimedEntry Digest)
        (decision : EntryDecision)
      (db' : Database Digest) (p : Proc Digest) (action : a = .run pid c)
      (runs : s.Runs pid (.entryDrain (.working remaining result entry (.ending decision))))
      (rescheduled : EntryRescheduled entry s.db db')
      (next : p.sends = false ∧ p.files = false) (eq : s' = { s with db := db' }.become pid p)
  /-- The accepting transaction failed; its error is decided like an error of the call. -/
  | entryRedecided (pid : ℕ) (c : Choice Digest) (remaining : ℕ)
      (result : AttachmentOutboxDrainResult)
      (entry : ClaimedEntry Digest) (decision : EntryDecision) (name message : JsString)
      (action : a = .run pid c)
      (runs : s.Runs pid (.entryDrain (.working remaining result entry (.ending decision))))
      (eq : s' = s.become pid (.entryDrain (.working remaining result entry
        (.ending (decideEntryError s.now entry (.other name message))))))

end ResendConversation
