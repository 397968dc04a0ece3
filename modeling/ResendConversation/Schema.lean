import ResendConversation.JsString
import ResendConversation.Foundation.Table
import ResendConversation.Foundation.Transaction

/-! # The database

The tables of `prisma/schema.prisma` and the migrations that the modelled functions read or
write, and the statements on them whose effect the schema decides: uniqueness, foreign keys
and checks on `email_messages`, the cascades of a deleted message or conversation, and the
trigger that leaves a tombstone behind for every deleted attachment.

Identifiers (`uuidv7()`, `gen_random_uuid()`, `randomUUID()`) are drawn from one counter
`nextId`, so an identifier is never drawn twice.  Times are milliseconds. -/

namespace ResendConversation

open Foundation

abbrev Uuid := ℕ

/-- Milliseconds since the epoch. -/
abbrev Time := ℤ

/-! ### Enumerations -/

inductive EmailDirection where
  | inbound | outbound
deriving DecidableEq, Repr

inductive EmailMessageState where
  | received | pending | accepted | failed | indeterminate
deriving DecidableEq, Repr

inductive EmailMessageKind where
  | conversation | direct
deriving DecidableEq, Repr

inductive EmailDeliveryState where
  | unknown | delivered | deliveryDelayed | bounced | complained | suppressed | failed
deriving DecidableEq, Repr

inductive EmailApiVersion where
  | v1 | v2
deriving DecidableEq, Repr

inductive EmailAddressRole where
  | from | replyTo
deriving DecidableEq, Repr

inductive ConversationState where
  | awaitingUs | awaitingParticipant | concluded | terminated
deriving DecidableEq, Repr

inductive ConversationEventType where
  | created | messageReceived | messageOutboundIntended | stateChanged | assigned
  | messageDeliveryUpdated | merged | deleted
deriving DecidableEq, Repr

inductive EmailAttachmentState where
  | pending | stored | failed
deriving DecidableEq, Repr

inductive EmailAttachmentSource where
  | inbound | upload
deriving DecidableEq, Repr

inductive EmailAttachmentDisposition where
  | attachment | inline
deriving DecidableEq, Repr

/-! ### Rows -/

structure EmailConversation where
  id : Uuid
  routingToken : JsString
  apiVersion : Option EmailApiVersion
  topicType : Option JsString
  externalTopicId : Option JsString
  title : JsString
  subject : JsString
  participantAddress : JsString
  participantName : Option JsString
  replyToBaseAddress : Option JsString
  replyToRequiresAllowlist : Bool
  state : ConversationState
  stateChangedAt : Time
  lastMessageAt : Time
  createdAt : Time
  eventSequence : ℕ
deriving DecidableEq

structure EmailConversationRoutingAlias where
  id : Uuid
  conversationId : Uuid
  routingToken : JsString
  baseAddress : JsString
deriving DecidableEq

structure EmailAddressAllowlistEntry where
  address : JsString
  role : EmailAddressRole
deriving DecidableEq

/-- An address with a display name, as the normalised requests carry it. -/
structure EmailIdentity where
  address : JsString
  name : Option JsString
deriving DecidableEq

structure EmailTag where
  name : JsString
  value : JsString
deriving DecidableEq

/-- A row of `email_messages`.  `Digest` is the type of request hashes. -/
structure EmailMessage (Digest : Type) where
  id : Uuid
  kind : EmailMessageKind := .conversation
  conversationId : Option Uuid := none
  parentMessageId : Option Uuid := none
  direction : EmailDirection
  state : EmailMessageState
  stateDetail : Option JsString := none
  deliveryState : Option EmailDeliveryState := none
  deliveryStateDetail : Option JsString := none
  deliveryStateUpdatedAt : Option Time := none
  deliveredAt : Option Time := none
  resendEmailId : Option JsString := none
  internetMessageId : Option JsString := none
  inReplyToInternetMessageId : Option JsString := none
  referenceInternetMessageIds : List JsString := []
  fromAddress : JsString
  fromName : Option JsString := none
  toAddress : JsString
  toName : Option JsString := none
  toRecipients : Option (List EmailIdentity) := none
  replyToAddress : Option JsString := none
  replyToName : Option JsString := none
  subject : JsString
  textBody : Option JsString := none
  htmlBody : Option JsString := none
  tags : Option (List EmailTag) := none
  emailCreatedAt : Time
  idempotencyKey : Option JsString := none
  requestHash : Option Digest := none
  createdAt : Time
deriving DecidableEq

structure EmailOutboxBatch where
  id : Uuid
  nextAttemptAt : Time
  firstAttemptAt : Option Time
  attemptCount : ℕ
  leaseToken : Option Uuid
  leaseUntil : Option Time
  lastErrorCode : Option JsString := none
deriving DecidableEq

structure EmailOutboxEntry where
  messageId : Uuid
  batchId : Option Uuid := none
  batchPosition : Option ℕ := none
  queuedAt : Time
deriving DecidableEq

structure EmailAttachmentOutboxEntry where
  messageId : Uuid
  queuedAt : Time
  firstAttemptAt : Option Time := none
  attemptCount : ℕ := 0
  nextAttemptAt : Time
  leaseToken : Option Uuid := none
  leaseUntil : Option Time := none
  lastErrorCode : Option JsString := none
deriving DecidableEq

/-- An object storage key: the configured prefix and a random identifier. -/
structure StorageKey where
  keyPrefix : JsString
  id : Uuid
deriving DecidableEq

structure EmailAttachment where
  id : Uuid
  messageId : Option Uuid := none
  source : EmailAttachmentSource
  state : EmailAttachmentState
  stateDetail : Option JsString := none
  filename : JsString
  contentType : JsString
  contentDisposition : EmailAttachmentDisposition := .attachment
  contentId : Option JsString := none
  sizeBytes : ℕ
  storageKey : StorageKey
  resendEmailId : Option JsString := none
  resendAttachmentId : Option JsString := none
  attemptCount : ℕ := 0
  nextAttemptAt : Time
  leaseToken : Option Uuid := none
  leaseUntil : Option Time := none
  lastErrorCode : Option JsString := none
  createdAt : Time
deriving DecidableEq

structure StoredObjectTombstone where
  id : Uuid
  storageKey : StorageKey
  attemptCount : ℕ := 0
  nextAttemptAt : Time
  leaseToken : Option Uuid := none
  leaseUntil : Option Time := none
  lastErrorCode : Option JsString := none
deriving DecidableEq

inductive ConversationEventActor where
  | participant | service | operator | system
deriving DecidableEq, Repr

/-- A row of `conversation_events`; the fields of its JSON payload are columns here. -/
structure ConversationEvent where
  id : Uuid
  conversationId : Uuid
  sequence : ℕ
  type : ConversationEventType
  occurredAt : Time
  topic : Option (JsString × JsString)
  actor : ConversationEventActor
  cause : JsString
  messageId : Option Uuid
  state : Option (Option ConversationState × ConversationState)
  deliveryState : Option EmailDeliveryState
  mergedIntoConversationId : Option Uuid
  attachmentCount : Option ℕ
deriving DecidableEq

/-- A row of `conversation_event_deliveries` for the one sink there is. -/
structure ConversationEventDelivery where
  eventId : Uuid
deriving DecidableEq

/-- A row of `resend_wh_emails`: the columns that delivery projection reads. -/
structure EmailWebhookEvent where
  id : Uuid
  svixId : JsString
  eventType : JsString
  webhookReceivedAt : Time
  eventCreatedAt : Time
  emailId : JsString
  deliveryDetail : Option JsString
deriving DecidableEq

structure Database (Digest : Type) where
  nextId : Uuid
  conversations : Table EmailConversation.id
  routingAliases : Table EmailConversationRoutingAlias.id
  allowlist : Table (id : EmailAddressAllowlistEntry → EmailAddressAllowlistEntry)
  messages : Table (@EmailMessage.id Digest)
  outboxBatches : Table EmailOutboxBatch.id
  outboxEntries : Table EmailOutboxEntry.messageId
  attachmentOutboxEntries : Table EmailAttachmentOutboxEntry.messageId
  attachments : Table EmailAttachment.id
  tombstones : Table StoredObjectTombstone.id
  conversationEvents : Table ConversationEvent.id
  conversationEventDeliveries : Table ConversationEventDelivery.eventId
  webhookEvents : Table EmailWebhookEvent.svixId

/-- The database after the migrations, before any request. -/
def Database.initial {Digest : Type} : Database Digest where
  nextId := 0
  conversations := .empty
  routingAliases := .empty
  allowlist := .empty
  messages := .empty
  outboxBatches := .empty
  outboxEntries := .empty
  attachmentOutboxEntries := .empty
  attachments := .empty
  tombstones := .empty
  conversationEvents := .empty
  conversationEventDeliveries := .empty
  webhookEvents := .empty

/-- What a transaction of the service can throw: the errors of the database client, and the
errors the service itself throws. -/
inductive TxError where
  | uniqueViolation
  | foreignKeyViolation
  | checkViolation
  /-- A text that no text column takes. -/
  | invalidText
  | notFound
  | identityNotAllowed
  | attachmentClaim (message : JsString)
  | error (message : JsString)
deriving DecidableEq

abbrev Transaction (Digest : Type) := Tx (Database Digest) TxError

variable {Digest : Type}

/-- `uuidv7()`. -/
def freshId : Transaction Digest Uuid :=
  modifyGet fun db => (db.nextId, { db with nextId := db.nextId + 1 })

/-- `INSERT` of one row, whose primary key must be free. -/
def insertRow {α κ : Type} [DecidableEq κ] {key : α → κ} (t : Database Digest → Table key)
    (put : Database Digest → Table key → Database Digest) (row : α) : Transaction Digest Unit := do
  let db ← get
  let table ← Tx.orThrow ((t db).insert? row) .uniqueViolation
  modify fun db => put db table

/-- What every text and JSON column refuses: a text with U+0000. -/
def checkTexts (texts : List JsString) : Transaction Digest Unit :=
  Tx.ensure (texts.all JsString.storable) .invalidText

/-- `delays[Math.min(attemptCount - 1, delays.length - 1)]`. -/
def retryDelay (delays : List Time) (attemptCount : ℕ) : Time :=
  delays.getD (min (attemptCount - 1) (delays.length - 1)) 0

/-! ### Messages -/

/-- The shape that `email_messages_kind_shape_check` requires of a row. -/
def EmailMessage.kindShape (m : EmailMessage Digest) : Bool :=
  match m.kind with
  | .conversation => m.conversationId.isSome
  | .direct =>
      m.conversationId.isNone && m.direction == .outbound && m.state != .received &&
        m.parentMessageId.isNone && m.internetMessageId.isNone &&
        m.inReplyToInternetMessageId.isNone && m.referenceInternetMessageIds.isEmpty &&
        m.replyToAddress.isNone && m.replyToName.isNone

/-- The texts in the columns of a row. -/
def EmailMessage.texts (m : EmailMessage Digest) : List JsString :=
  [m.fromAddress, m.toAddress, m.subject] ++ m.stateDetail.toList ++ m.deliveryStateDetail.toList ++
    m.resendEmailId.toList ++ m.internetMessageId.toList ++ m.inReplyToInternetMessageId.toList ++
    m.referenceInternetMessageIds ++ m.fromName.toList ++ m.toName.toList ++
    (m.toRecipients.getD []).flatMap (fun r => r.address :: r.name.toList) ++
    m.replyToAddress.toList ++ m.replyToName.toList ++ m.textBody.toList ++ m.htmlBody.toList ++
    (m.tags.getD []).flatMap (fun t => [t.name, t.value]) ++ m.idempotencyKey.toList

/-- Whether `value` is present and also the value of a column of another row. -/
def Database.takenBy (db : Database Digest) {β : Type} [DecidableEq β] (id : Uuid)
    (column : EmailMessage Digest → Option β) (value : Option β) : Bool :=
  value.isSome && db.messages.rows.any fun m => m.id != id && column m == value

/-- The constraints of `email_messages` on a row to be written. -/
def checkMessage (m : EmailMessage Digest) : Transaction Digest Unit := do
  let db ← get
  Tx.ensure (!db.takenBy m.id EmailMessage.resendEmailId m.resendEmailId) .uniqueViolation
  Tx.ensure (!db.takenBy m.id EmailMessage.internetMessageId m.internetMessageId) .uniqueViolation
  Tx.ensure (!db.takenBy m.id EmailMessage.idempotencyKey m.idempotencyKey) .uniqueViolation
  Tx.ensure (m.conversationId.all fun c => (db.conversations.get? c).isSome) .foreignKeyViolation
  Tx.ensure (m.parentMessageId.all fun p => (db.messages.get? p).isSome) .foreignKeyViolation
  Tx.ensure m.kindShape .checkViolation

/-- `emailMessage.create`, with the identifier that the database generates. -/
def createMessage (row : Uuid → EmailMessage Digest) :
    Transaction Digest (EmailMessage Digest) := do
  let id ← freshId
  checkTexts (row id).texts
  checkMessage (row id)
  insertRow Database.messages (fun db t => { db with messages := t }) (row id)
  pure (row id)

/-- `emailMessage.update` of one row by its primary key. -/
def updateMessage (id : Uuid) (f : EmailMessage Digest → EmailMessage Digest)
    (keep : ∀ m, (f m).id = m.id := by exact fun _ => Eq.trans rfl rfl) :
    Transaction Digest (EmailMessage Digest) := do
  let db ← get
  let m ← Tx.orThrow (db.messages.get? id) .notFound
  checkMessage (f m)
  modify fun db => { db with messages := db.messages.update (fun m => m.id == id) f keep }
  pure (f m)

/-- `emailMessage.updateMany`, for columns without a constraint of their own. -/
def updateMessages (p : EmailMessage Digest → Bool) (f : EmailMessage Digest → EmailMessage Digest)
    (keep : ∀ m, (f m).id = m.id := by exact fun _ => Eq.trans rfl rfl) : Transaction Digest ℕ :=
  modifyGet fun db =>
    (db.messages.count p, { db with messages := db.messages.update p f keep })

/-! ### Deletion -/

/-- The trigger `email_attachments_tombstone_before_delete` for one deleted row. -/
def tombstoneFor (now : Time) (key : StorageKey) (db : Database Digest) : Database Digest :=
  if db.tombstones.rows.any fun t => t.storageKey == key then db
  else
    match db.tombstones.insert? { id := db.nextId, storageKey := key, nextAttemptAt := now } with
    | none => db
    | some tombstones => { db with nextId := db.nextId + 1, tombstones }

/-- `DELETE FROM email_attachments WHERE p`, with its trigger. -/
def deleteAttachments (now : Time) (p : EmailAttachment → Bool) (db : Database Digest) :
    Database Digest :=
  let keys := (db.attachments.select p).map EmailAttachment.storageKey
  let db := keys.foldl (fun db key => tombstoneFor now key db) db
  { db with attachments := db.attachments.delete p }

/-- `DELETE FROM email_conversations WHERE id = ANY(ids)`, with the foreign keys that refer
to a deleted row: the messages, their outbox entries and attachments and the routing aliases
are deleted, the parent links of other messages are cleared. -/
def deleteConversations (now : Time) (ids : List Uuid) (db : Database Digest) : Database Digest :=
  let gone := fun m : EmailMessage Digest => m.conversationId.any ids.contains
  let goneIds := (db.messages.select gone).map EmailMessage.id
  let db := deleteAttachments now (fun a => a.messageId.any goneIds.contains) db
  { db with
    conversations := db.conversations.delete fun c => ids.contains c.id
    routingAliases := db.routingAliases.delete fun a => ids.contains a.conversationId
    messages := (db.messages.delete gone).update
      (fun m => m.parentMessageId.any goneIds.contains) fun m => { m with parentMessageId := none }
    outboxEntries := db.outboxEntries.delete fun e => goneIds.contains e.messageId
    attachmentOutboxEntries := db.attachmentOutboxEntries.delete fun e =>
      goneIds.contains e.messageId }

end ResendConversation
