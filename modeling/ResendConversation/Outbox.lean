import ResendConversation.Delivery
import ResendConversation.Payload

/-! # The batch lane

The transactions of `lib/outbox-service.ts`.  A drain claims a batch under a fresh lease
token (`claimOutboxBatch`), calls the provider outside any transaction, classifies the
answer, and finalizes the batch in a transaction that is fenced by the lease token. -/

namespace ResendConversation

open Foundation

variable {Digest : Type}

def outboxLeaseMs : Time := 2 * 60 * 1000
def providerIdempotencySafetyMs : Time := 23 * 60 * 60 * 1000
def outboxRetryDelaysMs : List Time := [60_000, 120_000, 300_000]

/-! ### Provider errors -/

structure ResendApiError where
  status : ℕ
  code : Option JsString
deriving DecidableEq

/-- What a provider call, or the code around it, can throw. -/
inductive SendError where
  | api (error : ResendApiError)
  | other (name message : JsString)
deriving DecidableEq

def isRetryableError : SendError → Bool
  | .other _ _ => true
  | .api error =>
      (error.status == 429 && error.code != some (js "monthly_quota_exceeded") &&
        error.code != some (js "daily_quota_exceeded")) ||
      500 ≤ error.status ||
      (error.status == 409 && error.code == some (js "concurrent_idempotent_requests"))

/-- A payload that differs from the one first sent under the key. -/
def isChangedPayloadError : SendError → Bool
  | .api error => error.status == 409 && error.code == some (js "invalid_idempotent_request")
  | .other _ _ => false

def getErrorCode : SendError → JsString
  | .api error => error.code.getD (js s!"http_{error.status}")
  | .other name _ => name

/-! ### Claim -/

structure ClaimedBatch (Digest : Type) where
  id : Uuid
  leaseToken : Uuid
  attemptCount : ℕ
  firstAttemptAt : Time
  messages : List (EmailMessage Digest)
deriving DecidableEq

/-- `Date.now() - firstAttemptAt >= PROVIDER_IDEMPOTENCY_SAFETY_MS`. -/
def hasProviderWindowExpired (now firstAttemptAt : Time) : Bool :=
  providerIdempotencySafetyMs ≤ now - firstAttemptAt

/-- The entries of a batch by position. -/
def batchEntries (db : Database Digest) (batchId : Uuid) : List EmailOutboxEntry :=
  db.outboxEntries.selectSorted (fun e => e.batchId == some batchId)
    fun a b => a.batchPosition.getD 0 ≤ b.batchPosition.getD 0

def EmailOutboxBatch.ready (now : Time) (b : EmailOutboxBatch) : Bool :=
  b.nextAttemptAt ≤ now && b.leaseUntil.all (· ≤ now)

/-- Whether the entry's message exists in the given state. -/
def Database.messageIn (db : Database Digest) (id : Uuid) (state : EmailMessageState) : Bool :=
  (db.messages.get? id).any fun m => m.state == state

/-- Removes the unbatched entries of messages that are no longer pending. -/
def deleteSettledEntries (db : Database Digest) : Database Digest :=
  { db with
    outboxEntries := db.outboxEntries.delete fun e =>
      e.batchId.isNone && (db.messages.get? e.messageId).any fun m => m.state != .pending }

/-- The next batch whose retry is due; `locked` are the rows another transaction holds. -/
def readyBatch (db : Database Digest) (now : Time) (locked : List Uuid) : Option EmailOutboxBatch :=
  (db.outboxBatches.selectSorted (fun b => b.ready now && !locked.contains b.id)
    fun a b => a.nextAttemptAt < b.nextAttemptAt ∨
      (a.nextAttemptAt = b.nextAttemptAt ∧ a.id ≤ b.id)).head?

/-- The unbatched entries that a new batch takes, in order. -/
def unbatchedEntries (db : Database Digest) (limit : ℕ) (locked : List Uuid) : List Uuid :=
  ((db.outboxEntries.selectSorted
    (fun e => e.batchId.isNone && db.messageIn e.messageId .pending && !locked.contains e.messageId)
    fun a b => a.queuedAt < b.queuedAt ∨
      (a.queuedAt = b.queuedAt ∧ a.messageId ≤ b.messageId)).take limit).map
    EmailOutboxEntry.messageId

/-- A new batch under its first lease. -/
def newBatch (now : Time) (leaseToken id : Uuid) : EmailOutboxBatch where
  id := id
  nextAttemptAt := now
  firstAttemptAt := some now
  attemptCount := 1
  leaseToken := some leaseToken
  leaseUntil := some (now + outboxLeaseMs)

/-- Puts an entry into a batch, at its position in the list of the entries. -/
def EmailOutboxEntry.assign (batchId : Uuid) (entries : List Uuid) (e : EmailOutboxEntry) :
    EmailOutboxEntry :=
  { e with batchId := some batchId, batchPosition := some (entries.idxOf e.messageId) }

/-- Creates a batch under the lease and assigns the entries to it by position. -/
def createBatch (now : Time) (leaseToken : Uuid) (entries : List Uuid) :
    Transaction Digest Uuid := do
  let id ← freshId
  insertRow Database.outboxBatches (fun db t => { db with outboxBatches := t })
    (newBatch now leaseToken id)
  modify fun db => { db with
    outboxEntries := db.outboxEntries.update
      (fun e => entries.contains e.messageId && e.batchId.isNone)
        (EmailOutboxEntry.assign id entries) }
  pure id

/-- Takes a fresh lease on a batch. -/
def EmailOutboxBatch.lease (now : Time) (leaseToken : Uuid) (b : EmailOutboxBatch) :
    EmailOutboxBatch :=
  { b with
    leaseToken := some leaseToken
    leaseUntil := some (now + outboxLeaseMs)
    attemptCount := b.attemptCount + 1
    lastErrorCode := none }

def leaseBatch (now : Time) (leaseToken : Uuid) (batchId : Uuid) : Transaction Digest Unit :=
  modify fun db => { db with
    outboxBatches := db.outboxBatches.update (fun b => b.id == batchId)
      (EmailOutboxBatch.lease now leaseToken) }

/-- A batch row with the messages of its entries. -/
structure LoadedBatch (Digest : Type) where
  batch : EmailOutboxBatch
  messages : List (EmailMessage Digest)

def loadBatch (batchId : Uuid) : Transaction Digest (LoadedBatch Digest) := do
  let db ← get
  let batch ← Tx.orThrow (db.outboxBatches.get? batchId) .notFound
  pure ⟨batch, (batchEntries db batchId).filterMap fun e => db.messages.get? e.messageId⟩

/-- The claim transaction: a batch whose retry is due, else a new batch of waiting entries. -/
def claimTransaction (now : Time) (limit : ℕ) (locked : List Uuid) :
    Transaction Digest (Option (Uuid × LoadedBatch Digest)) := do
  let leaseToken ← freshId
  modify deleteSettledEntries
  let db ← get
  match readyBatch db now locked with
  | some batch => do
      leaseBatch now leaseToken batch.id
      let loaded ← loadBatch batch.id
      pure (some (leaseToken, loaded))
  | none =>
      match unbatchedEntries db limit locked with
      | [] => pure none
      | entries => do
          let batchId ← createBatch now leaseToken entries
          let loaded ← loadBatch batchId
          pure (some (leaseToken, loaded))

def invalidMessageState : TxError :=
  .error (js "Claimed outbox batch contains invalid message state")

/-- The checks of `claimOutboxBatch` after its transaction has committed. -/
def checkClaim (leaseToken : Uuid) (loaded : LoadedBatch Digest) :
    Except TxError (ClaimedBatch Digest) :=
  match loaded.batch.firstAttemptAt with
  | none => .error invalidMessageState
  | some firstAttemptAt =>
      if loaded.messages.any fun m => m.state != .pending then .error invalidMessageState
      else .ok
        { id := loaded.batch.id
          leaseToken
          attemptCount := loaded.batch.attemptCount
          firstAttemptAt
          messages := loaded.messages }

/-! ### Finalization -/

/-- How a worker decides to end its attempt. -/
inductive BatchDecision where
  | accept (resendEmailIds : List JsString)
  | fail (errorCode : JsString)
  | indeterminate (detail : JsString)
  | retry (errorCode : JsString)
deriving DecidableEq

def batchWindowExpired : JsString := js "Outbox batch exceeded the provider idempotency window"

/-- `scheduleBatchRetry` finalizes as indeterminate once the window has passed. -/
def scheduleBatchRetry (now : Time) (batch : ClaimedBatch Digest) (errorCode : JsString) :
    BatchDecision :=
  if hasProviderWindowExpired now batch.firstAttemptAt then .indeterminate batchWindowExpired
  else .retry errorCode

/-- What the worker observes of its provider call. -/
inductive Observation where
  | sent (ids : List JsString)
  | threw (error : SendError)
deriving DecidableEq

/-- The decision of `drainEmailOutbox` on the outcome of `sendBatch`; an identifier that is
not a string is recorded as the empty string. -/
def decideBatch (now : Time) (batch : ClaimedBatch Digest) : Observation → BatchDecision
  | .sent ids =>
      if ids.length ≠ batch.messages.length ∨ ids.any List.isEmpty then
        scheduleBatchRetry now batch (js "invalid_batch_response")
      else .accept ids
  | .threw error =>
      if isChangedPayloadError error then
        .indeterminate (js "Resend rejected a changed payload for the persisted batch key")
      else if isRetryableError error then scheduleBatchRetry now batch (getErrorCode error)
      else .fail (getErrorCode error)

/-- Whether the batch row still carries the worker's lease. -/
def ClaimedBatch.owned (batch : ClaimedBatch Digest) (b : EmailOutboxBatch) : Bool :=
  b.id == batch.id && b.leaseToken == some batch.leaseToken

def assertLeaseOwner (batch : ClaimedBatch Digest) : Transaction Digest Unit := do
  let db ← get
  Tx.ensure (db.outboxBatches.rows.any batch.owned)
    (.error (js "Outbox batch lease was lost before completion"))

/-- Deletes the batch row, and its entries with it, while the lease is held. -/
def deleteOwnedBatch (batch : ClaimedBatch Digest) : Transaction Digest Unit := do
  let db ← get
  Tx.ensure (db.outboxBatches.count batch.owned == 1)
    (.error (js "Outbox batch lease was lost before cleanup"))
  modify fun db => { db with
    outboxBatches := db.outboxBatches.delete batch.owned
    outboxEntries := db.outboxEntries.delete fun e => e.batchId == some batch.id }

def ClaimedBatch.messageIds (batch : ClaimedBatch Digest) : List Uuid :=
  batch.messages.map EmailMessage.id

/-- The provider identifier that the answer assigns to a message of the batch. -/
def acceptedId (batch : ClaimedBatch Digest) (resendEmailIds : List JsString) (id : Uuid) :
    Option JsString :=
  resendEmailIds[batch.messageIds.idxOf id]?

def reconcileAll (config : Config) : List JsString → Transaction Digest Unit
  | [] => pure ()
  | id :: ids => do
      reconcileOutboundDeliveryState config id
      reconcileAll config ids

def finalizeAcceptedBatch (config : Config) (batch : ClaimedBatch Digest)
    (resendEmailIds : List JsString) : Transaction Digest Unit := do
  assertLeaseOwner batch
  -- `Prisma.join` refuses an empty list
  Tx.ensure (!batch.messages.isEmpty) (.error (js "Expected a non-empty array"))
  checkTexts resendEmailIds
  let updated ← updateMessages
    (fun m => batch.messageIds.contains m.id && m.state == .pending) fun m =>
      { m with
        state := .accepted
        stateDetail := none
        deliveryState := some .unknown
        resendEmailId := acceptedId batch resendEmailIds m.id }
  let db ← get
  Tx.ensure (decide (db.messages.rows.filterMap EmailMessage.resendEmailId).Nodup) .uniqueViolation
  Tx.ensure (updated == batch.messages.length)
    (.error (js "Outbox message changed before batch completion"))
  reconcileAll config resendEmailIds
  deleteOwnedBatch batch

/-- The shared body of `finalizeFailedBatch` and `finalizeIndeterminateBatch`. -/
def finalizeTerminalBatch (batch : ClaimedBatch Digest) (state : EmailMessageState)
    (detail : JsString) : Transaction Digest Unit := do
  assertLeaseOwner batch
  checkTexts [detail]
  let _ ← updateMessages
    (fun m => batch.messageIds.contains m.id && m.state == .pending) fun m =>
      { m with state := state, stateDetail := some detail }
  deleteOwnedBatch batch

def finalizeFailedBatch (batch : ClaimedBatch Digest) (errorCode : JsString) :
    Transaction Digest Unit :=
  finalizeTerminalBatch batch .failed (js "Resend batch request failed (" ++ errorCode ++ js ")")

def finalizeIndeterminateBatch (batch : ClaimedBatch Digest) (detail : JsString) :
    Transaction Digest Unit :=
  finalizeTerminalBatch batch .indeterminate detail

/-- Gives the lease back and schedules the next attempt. -/
def EmailOutboxBatch.reschedule (now : Time) (attemptCount : ℕ) (errorCode : JsString)
    (b : EmailOutboxBatch) : EmailOutboxBatch :=
  { b with
    nextAttemptAt := now + retryDelay outboxRetryDelaysMs attemptCount
    leaseToken := none
    leaseUntil := none
    lastErrorCode := some (errorCode.take 64) }

def rescheduleBatch (now : Time) (batch : ClaimedBatch Digest) (errorCode : JsString) :
    Transaction Digest Unit := do
  checkTexts [errorCode.take 64]
  let db ← get
  Tx.ensure (db.outboxBatches.count batch.owned == 1)
    (.error (js "Outbox batch lease was lost before retry scheduling"))
  modify fun db => { db with
    outboxBatches := db.outboxBatches.update batch.owned
      (EmailOutboxBatch.reschedule now batch.attemptCount errorCode) }

def finalizeBatch (config : Config) (now : Time) (batch : ClaimedBatch Digest) :
    BatchDecision → Transaction Digest Unit
  | .accept ids => finalizeAcceptedBatch config batch ids
  | .fail errorCode => finalizeFailedBatch batch errorCode
  | .indeterminate detail => finalizeIndeterminateBatch batch detail
  | .retry errorCode => rescheduleBatch now batch errorCode

/-! ### Results -/

structure DrainedMessage where
  messageId : Uuid
  state : EmailMessageState
  resendEmailId : Option JsString := none
deriving DecidableEq

structure OutboxDrainResult where
  batchId : Option Uuid := none
  claimed : ℕ := 0
  accepted : ℕ := 0
  failed : ℕ := 0
  retryScheduled : ℕ := 0
  indeterminate : ℕ := 0
  results : List DrainedMessage := []
deriving DecidableEq

def emptyDrainResult : OutboxDrainResult := {}

/-- The result of a drain whose finalization committed. -/
def drainResult (batch : ClaimedBatch Digest) (decision : BatchDecision) : OutboxDrainResult :=
  let claimed := batch.messages.length
  let all := fun state => batch.messageIds.map fun id =>
    ({ messageId := id, state } : DrainedMessage)
  let base : OutboxDrainResult := { batchId := some batch.id, claimed }
  match decision with
  | .accept ids =>
      { base with
        accepted := claimed
        results := batch.messageIds.map fun id =>
          { messageId := id, state := .accepted, resendEmailId := acceptedId batch ids id } }
  | .fail _ => { base with failed := claimed, results := all .failed }
  | .indeterminate _ => { base with indeterminate := claimed, results := all .indeterminate }
  | .retry _ => { base with retryScheduled := claimed, results := all .pending }

end ResendConversation
