import ResendConversation.Attachments
import ResendConversation.Outbox

/-! # The attachment lane

The transactions of `lib/attachment-outbox-service.ts`: queued messages that carry
attachments are claimed and sent one at a time.  Leases, backoff and the idempotency window
match the batch lane; the fence is the compare-and-delete of the entry at the end of each
finalizing transaction. -/

namespace ResendConversation

open Foundation

variable {Digest : Type}

structure ClaimedEntry (Digest : Type) where
  message : EmailMessage Digest
  leaseToken : Uuid
  attemptCount : ℕ
  firstAttemptAt : Time
deriving DecidableEq

/-- Removes the entries of messages that are no longer pending. -/
def deleteSettledAttachmentEntries (db : Database Digest) : Database Digest :=
  { db with
    attachmentOutboxEntries := db.attachmentOutboxEntries.delete fun e =>
      (db.messages.get? e.messageId).any fun m => m.state != .pending }

/-- The next entry whose attempt is due; `locked` are the rows another transaction holds. -/
def readyEntry (db : Database Digest) (now : Time) (locked : List Uuid) :
    Option EmailAttachmentOutboxEntry :=
  (db.attachmentOutboxEntries.selectSorted
    (fun e => db.messageIn e.messageId .pending && e.nextAttemptAt ≤ now &&
      e.leaseUntil.all (· ≤ now) && !locked.contains e.messageId)
    fun a b => a.queuedAt < b.queuedAt ∨
      (a.queuedAt = b.queuedAt ∧ a.messageId ≤ b.messageId)).head?

/-- Takes a fresh lease on an entry; the first lease opens its idempotency window. -/
def EmailAttachmentOutboxEntry.lease (now : Time) (leaseToken : Uuid)
    (e : EmailAttachmentOutboxEntry) : EmailAttachmentOutboxEntry :=
  { e with
    leaseToken := some leaseToken
    leaseUntil := some (now + outboxLeaseMs)
    attemptCount := e.attemptCount + 1
    lastErrorCode := none
    firstAttemptAt := some (e.firstAttemptAt.getD now) }

def claimEntry (now : Time) (locked : List Uuid) :
    Transaction Digest (Option (ClaimedEntry Digest)) := do
  let leaseToken ← freshId
  modify deleteSettledAttachmentEntries
  let db ← get
  match readyEntry db now locked with
  | none => pure none
  | some entry => do
      modify fun db => { db with
        attachmentOutboxEntries := db.attachmentOutboxEntries.update
          (fun e => e.messageId == entry.messageId)
            (EmailAttachmentOutboxEntry.lease now leaseToken) }
      let message ← Tx.orThrow (db.messages.get? entry.messageId) .notFound
      pure (some
        { message
          leaseToken
          attemptCount := entry.attemptCount + 1
          firstAttemptAt := entry.firstAttemptAt.getD now })

/-! ### Finalization -/

/-- How a worker decides to end its attempt. -/
inductive EntryDecision where
  | accept (resendEmailId : JsString)
  | finalize (state : EmailMessageState) (detail : JsString)
  | retry (errorCode : JsString)
deriving DecidableEq

def entryWindowExpired : JsString :=
  js "Attachment outbox entry exceeded the provider idempotency window"

/-- The `catch` block of `deliverEntry`. -/
def decideEntryError (now : Time) (entry : ClaimedEntry Digest) (error : SendError) :
    EntryDecision :=
  if isChangedPayloadError error then
    .finalize .indeterminate (js "Resend rejected a changed payload for the persisted entry key")
  else if isRetryableError error then
    if hasProviderWindowExpired now entry.firstAttemptAt then
      .finalize .indeterminate entryWindowExpired
    else .retry (getErrorCode error)
  else .finalize .failed (js "Resend send request failed (" ++ getErrorCode error ++ js ")")

/-- The error that `send` throws on an answer without an email identifier. -/
def invalidEmailId : SendError :=
  .other (js "Error") (js "Resend API returned an invalid email ID")

/-- What `send` returns or throws: one identifier that is not empty, or an error. -/
def sendResult : Observation → Except SendError JsString
  | .sent [id] => if id.isEmpty then .error invalidEmailId else .ok id
  | .sent _ => .error invalidEmailId
  | .threw error => .error error

/-- The decision of `deliverEntry` on the outcome of its provider call. -/
def decideEntry (now : Time) (entry : ClaimedEntry Digest) (observation : Observation) :
    EntryDecision :=
  match sendResult observation with
  | .ok id => .accept id
  | .error error => decideEntryError now entry error

def ClaimedEntry.owned (entry : ClaimedEntry Digest) (e : EmailAttachmentOutboxEntry) : Bool :=
  e.messageId == entry.message.id && e.leaseToken == some entry.leaseToken

/-- Deletes the entry while the lease is held. -/
def deleteOwnedEntry (entry : ClaimedEntry Digest) : Transaction Digest Unit := do
  let db ← get
  Tx.ensure (db.attachmentOutboxEntries.count entry.owned == 1)
    (.error (js "Attachment outbox lease was lost before cleanup"))
  modify fun db => { db with
    attachmentOutboxEntries := db.attachmentOutboxEntries.delete entry.owned }

def acceptEntry (config : Config) (entry : ClaimedEntry Digest) (resendEmailId : JsString) :
    Transaction Digest Unit := do
  checkTexts [resendEmailId]
  let updated ← updateMessages (fun m => m.id == entry.message.id && m.state == .pending)
    (fun m => { m with
      state := .accepted
      stateDetail := none
      deliveryState := some .unknown
      resendEmailId := some resendEmailId })
    fun m => Eq.refl m.id
  let db ← get
  Tx.ensure (decide (db.messages.rows.filterMap EmailMessage.resendEmailId).Nodup) .uniqueViolation
  Tx.ensure (updated == 1) (.error (js "Outbox message changed before completion"))
  reconcileOutboundDeliveryState config resendEmailId
  deleteOwnedEntry entry

def finalizeEntry (entry : ClaimedEntry Digest) (state : EmailMessageState) (detail : JsString) :
    Transaction Digest Unit := do
  checkTexts [detail]
  let _ ← updateMessages (fun m => m.id == entry.message.id && m.state == .pending)
    (fun m => { m with state := state, stateDetail := some detail })
    fun m => Eq.refl m.id
  deleteOwnedEntry entry

/-- Gives the lease back and schedules the next attempt. -/
def EmailAttachmentOutboxEntry.reschedule (now : Time) (attemptCount : ℕ) (errorCode : JsString)
    (e : EmailAttachmentOutboxEntry) : EmailAttachmentOutboxEntry :=
  { e with
    nextAttemptAt := now + retryDelay outboxRetryDelaysMs attemptCount
    leaseToken := none
    leaseUntil := none
    lastErrorCode := some (errorCode.take 64) }

def scheduleRetry (now : Time) (entry : ClaimedEntry Digest) (errorCode : JsString) :
    Transaction Digest Unit := do
  checkTexts [errorCode.take 64]
  let db ← get
  Tx.ensure (db.attachmentOutboxEntries.count entry.owned == 1)
    (.error (js "Attachment outbox lease was lost before retry scheduling"))
  modify fun db => { db with
    attachmentOutboxEntries := db.attachmentOutboxEntries.update entry.owned
      (EmailAttachmentOutboxEntry.reschedule now entry.attemptCount errorCode) }

def endEntry (config : Config) (now : Time) (entry : ClaimedEntry Digest) :
    EntryDecision → Transaction Digest Unit
  | .accept id => acceptEntry config entry id
  | .finalize state detail => finalizeEntry entry state detail
  | .retry errorCode => scheduleRetry now entry errorCode

/-! ### Results -/

structure AttachmentOutboxDrainResult where
  claimed : ℕ := 0
  accepted : ℕ := 0
  failed : ℕ := 0
  retryScheduled : ℕ := 0
  indeterminate : ℕ := 0
  results : List DrainedMessage := []
deriving DecidableEq

/-- The outcome of `deliverEntry` once its decision has committed. -/
def entryOutcome (entry : ClaimedEntry Digest) : EntryDecision → DrainedMessage
  | .accept id => { messageId := entry.message.id, state := .accepted, resendEmailId := some id }
  | .finalize state _ => { messageId := entry.message.id, state }
  | .retry _ => { messageId := entry.message.id, state := .pending }

/-- Counts one more delivered entry. -/
def AttachmentOutboxDrainResult.push (r : AttachmentOutboxDrainResult) (outcome : DrainedMessage) :
    AttachmentOutboxDrainResult :=
  { claimed := r.claimed + 1
    accepted := r.accepted + if outcome.state = .accepted then 1 else 0
    failed := r.failed + if outcome.state = .failed then 1 else 0
    retryScheduled := r.retryScheduled + if outcome.state = .pending then 1 else 0
    indeterminate := r.indeterminate + if outcome.state = .indeterminate then 1 else 0
    results := r.results ++ [outcome] }

end ResendConversation
