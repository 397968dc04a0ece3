import ResendConversation.AttachmentOutbox
import ResendConversation.Operator
import ResendConversation.Provider
import ResendConversation.SendRequests

/-! # Processes

The state that a running piece of the service keeps between two accesses to the database,
the provider or the object storage: the request handlers of the three send operations with
the delivery they go through, the two drains, the inbound webhook, the ingest runtime, the
reaper and an upload request.  A process that crashes disappears with this state. -/

namespace ResendConversation

open Foundation

variable {Digest : Type}

/-! ### Send requests -/

inductive SendResponse (Digest : Type) where
  | message (status : ℕ) (error : Option JsString) (message : EmailMessage Digest)
  | rejected (status : ℕ) (error : JsString)
  /-- The handler threw; the server answers 500. -/
  | crashed
deriving DecidableEq

/-- `sendResultResponse` and `replayResponse`. -/
def replayResponse (m : EmailMessage Digest) : SendResponse Digest :=
  if m.state = .failed ∨ m.state = .indeterminate then
    .message 502 (some (js "Email was not confirmed as sent")) m
  else if m.state = .pending then .message 202 none m
  else .message 200 none m

/-- A run of `deliverPendingMessage`: for the request that stored the message, or for its
`replay` through `recoverPendingMessage`.  `checkedAt` is the window check of the replay, or
the time at which the message was stored. -/
structure Delivery where
  messageId : Uuid
  replay : Bool
  checkedAt : Time
deriving DecidableEq

inductive DeliveryPhase (Digest : Type) where
  | prepare
  | lock (attachments : List SendEmailAttachmentInput)
  /-- The advisory lock is held and the message was read as pending. -/
  | calling (message : EmailMessage Digest) (callId : Uuid)
  | hydrate (message : EmailMessage Digest)
deriving DecidableEq

/-- Which response the last read of a message is for. -/
inductive ReloadMode where
  | queued | replay | failed
deriving DecidableEq

inductive SendPhase (Digest : Type) where
  | lookup
  | authorize
  | loadParent
  | ensureMessageId (parent : EmailMessage Digest)
  | retrieveMessageId (parent stored : EmailMessage Digest)
  | transact (parent : Option ReplyParent)
  | raced
  | reopen
  | reopenTransact (conversation : EmailConversation)
  | racedReopen
  | recover (messageId : Uuid)
  | expire (messageId : Uuid)
  | deliver (delivery : Delivery) (phase : DeliveryPhase Digest)
  | reload (messageId : Uuid) (mode : ReloadMode)
  | responded (response : SendResponse Digest)
deriving DecidableEq

structure SendHandler (Digest : Type) where
  request : SendRequest
  idempotencyKey : JsString
  phase : SendPhase Digest
deriving DecidableEq

/-! ### Drains -/

inductive BatchPhase (Digest : Type) where
  | claimed (claimedAt : Time)
  | calling (callId : Uuid)
  | ending (decision : BatchDecision)
deriving DecidableEq

/-- A run of `drainEmailOutbox`. -/
inductive BatchWorker (Digest : Type) where
  | working (batch : ClaimedBatch Digest) (phase : BatchPhase Digest)
  | returned (result : Except TxError OutboxDrainResult)

inductive EntryPhase (Digest : Type) where
  | claimed (claimedAt : Time)
  | calling (callId : Uuid)
  | ending (decision : EntryDecision)
deriving DecidableEq

/-- A run of `drainAttachmentOutbox`, between two entries or at work on one. -/
inductive EntryWorker (Digest : Type) where
  | idle (remaining : ℕ) (result : AttachmentOutboxDrainResult)
  | working (remaining : ℕ) (result : AttachmentOutboxDrainResult) (entry : ClaimedEntry Digest)
      (phase : EntryPhase Digest)
  | returned (result : Except TxError AttachmentOutboxDrainResult)

/-! ### Inbound mail -/

/-- The loop of `hydrateReferencedOutboundMessages` over the candidates that remain. -/
structure Hydration (Digest : Type) where
  pending : List (EmailMessage Digest)
  ancestry : List JsString
  retryCutoff : Time
  matched : Bool := false
  /-- A retrieval failed, or a candidate was left out, within the retry window. -/
  incomplete : Bool := false
deriving DecidableEq

inductive ReceivePhase (Digest : Type) where
  | record
  | inspect
  | fetch
  | hydrate (hydration : Hydration Digest) (email : Option ResendEmail)
  | project (email : ResendEmail)
  | fallback (email : ResendEmail)
  | completed (message : Option (EmailMessage Digest))
  | failed
deriving DecidableEq

/-- The handling of one `email.received` webhook. -/
structure ReceiveHandler (Digest : Type) where
  svixId : JsString
  event : EmailEventData
  phase : ReceivePhase Digest
deriving DecidableEq

/-! ### Stored objects -/

inductive IngestPhase where
  | fetching (attachment : ClaimedAttachment)
  | storing (attachment : ClaimedAttachment) (sizeBytes : ℕ)
  /-- The lease was lost between the write of the object and the update of the row. -/
  | lost (attachment : ClaimedAttachment)
  | failing (attachment : ClaimedAttachment) (error : IngestError)
deriving DecidableEq

/-- A cycle of the ingest runtime. -/
structure IngestWorker where
  queue : List ClaimedAttachment
  phase : Option IngestPhase := none
deriving DecidableEq

inductive ReaperPhase where
  | claiming
  | deleting (tombstones : List ClaimedTombstone)
  | finishing (tombstone : ClaimedTombstone) (rest : List ClaimedTombstone)
  | retrying (tombstone : ClaimedTombstone) (errorName : JsString) (rest : List ClaimedTombstone)
deriving DecidableEq

/-- An upload request whose object is written. -/
structure UploadHandler where
  filename : JsString
  contentType : JsString
  sizeBytes : ℕ
  storageKey : StorageKey
  /-- The row could not be created. -/
  failed : Bool := false
deriving DecidableEq

inductive Proc (Digest : Type) where
  | send (handler : SendHandler Digest)
  | batchDrain (worker : BatchWorker Digest)
  | entryDrain (worker : EntryWorker Digest)
  | receive (handler : ReceiveHandler Digest)
  | ingest (worker : IngestWorker)
  | reaper (phase : ReaperPhase)
  | upload (handler : UploadHandler)

/-- What a lease is issued for. -/
inductive LeaseTarget where
  | batch (id : Uuid)
  | entry (messageId : Uuid)
deriving DecidableEq, Repr

/-- The whole system.  `leases` is the history of the lease tokens that the drains issued. -/
structure System (Digest : Type) where
  db : Database Digest
  now : Time
  config : Config
  provider : Provider
  objects : Table (@Prod.fst StorageKey (List UInt8))
  procs : Table (@Prod.fst ℕ (Proc Digest))
  leases : List (LeaseTarget × Uuid)

/-- An empty database, no process, nothing stored and nothing sent. -/
def System.initial (config : Config) (now : Time) : System Digest where
  db := .initial
  now := now
  config := config
  provider := .initial
  objects := .empty
  procs := .empty
  leases := []

/-- What the environment decides in one step of a process: the clock readings it uses, the
rows that other transactions hold, the order of unordered queries, the answer of a read from
the provider, and its failures. -/
structure Choice (Digest : Type) where
  readAt : Option Time := none
  createdAt : Option Time := none
  locked : List Uuid := []
  scan : Scan (EmailMessage Digest) := .sequential _
  /-- The Message-ID and creation time of a retrieved email, unless the retrieval failed. -/
  retrieved : Option (JsString × Time) := none
  /-- Name and message of an error of its own that the process meets while it waits. -/
  lost : Option (JsString × JsString) := none
  /-- The email that `getReceived` answers, unless it failed. -/
  received : Option ResendEmail := none
  /-- The bytes of a downloaded attachment. -/
  bytes : List UInt8 := []
  /-- A storage request or a transaction ends in an error of the infrastructure. -/
  fails : Bool := false

namespace System

/-- The process continues in the given state. -/
def become (s : System Digest) (pid : ℕ) (p : Proc Digest) : System Digest :=
  { s with procs := s.procs.set (pid, p) }

/-- The process ends. -/
def finish (s : System Digest) (pid : ℕ) : System Digest :=
  { s with procs := s.procs.delete fun p => p.1 == pid }

/-- A reading of the clock that the process took now or earlier. -/
def clock (s : System Digest) (reading : Option Time) : Time := min (reading.getD s.now) s.now

/-- Commits the transaction, or rolls it back. -/
def transact {α : Type} (s : System Digest) (x : Transaction Digest α) :
    Except TxError α × System Digest :=
  let (result, db) := x.execute s.db
  (result, { s with db })

end System

end ResendConversation
