import ResendConversation.Inbound

/-! # Persisting send intent

The transactions of `lib/conversation-v2.ts` and `lib/direct-email-v2.ts` that store an
outbound message: the opening of a conversation, the reopening of a conversation all of whose
messages failed, a reply, and a direct email.  Each checks the allowlist again, inserts the
message with its outbox entry, and binds the referenced uploads. -/

namespace ResendConversation

open Foundation

variable {Digest : Type}

/-- What every send transaction takes from its request handler. -/
structure SendContext (Digest : Type) where
  rt : Runtime Digest
  config : Config
  now : Time
  createdAt : Time
  idempotencyKey : JsString
  request : SendRequest

namespace SendContext

def requestHash (ctx : SendContext Digest) : Digest := ctx.rt.hashSendRequest ctx.request

end SendContext

def replyToConfigurationError : TxError :=
  .error (js "Invalid conversation Reply-To configuration")

/-- The columns that `messageCreateData`, `replyCreateData` and `sendDirectEmailV2` share. -/
def outboundMessage (ctx : SendContext Digest) (id : Uuid) (sender : EmailIdentity)
    (recipients : List EmailIdentity) (subject : JsString) (text html : Option JsString)
    (tags : Option (List EmailTag)) : EmailMessage Digest :=
  let first := recipients.headD ⟨[], none⟩
  { id
    kind := ctx.request.kind
    direction := .outbound
    state := .pending
    deliveryState := some .unknown
    fromAddress := sender.address
    fromName := sender.name
    toAddress := first.address
    toName := first.name
    toRecipients := some recipients
    subject
    textBody := text
    htmlBody := html
    tags
    emailCreatedAt := ctx.now
    idempotencyKey := some ctx.idempotencyKey
    requestHash := some ctx.requestHash
    createdAt := ctx.createdAt }

def messageCreateData (ctx : SendContext Digest) (value : CreateConversationV2Input)
    (subject replyToAddress : JsString) (id conversationId : Uuid) : EmailMessage Digest :=
  let recipients := value.message.to.getD [⟨value.participant.email, value.participant.name⟩]
  { outboundMessage ctx id value.message.from recipients subject value.message.text
      value.message.html value.message.tags with
    conversationId := some conversationId
    replyToAddress := some replyToAddress
    replyToName := value.message.replyTo.name }

/-- The parent of a reply as its handler resolved it. -/
structure ReplyParent where
  id : Uuid
  internetMessageId : JsString
  references : List JsString
deriving DecidableEq

def replyCreateData (ctx : SendContext Digest) (value : MessageV2Input)
    (conversation : EmailConversation) (parent : ReplyParent) (replyToAddress : JsString)
    (id : Uuid) : EmailMessage Digest :=
  let recipients := value.to.getD [⟨conversation.participantAddress, conversation.participantName⟩]
  { outboundMessage ctx id value.from recipients
    (createReplySubject conversation.subject) value.text value.html value.tags with
    conversationId := some conversation.id
    parentMessageId := some parent.id
    inReplyToInternetMessageId := some parent.internetMessageId
    referenceInternetMessageIds := parent.references
    replyToAddress := some replyToAddress
    replyToName := value.replyTo.name }

def directCreateData (ctx : SendContext Digest) (value : DirectEmailV2Input) (id : Uuid) :
    EmailMessage Digest :=
  outboundMessage ctx id value.from value.to value.subject value.text value.html value.tags

/-- The outbox relation of a new message: queued intent with attachments goes to the
attachment lane, other queued intent to the batch lane. -/
def createOutboxEntry (ctx : SendContext Digest) (messageId : Uuid) : Transaction Digest Unit :=
  if ctx.request.queued then
    if ctx.request.hasAttachments then
      insertRow Database.attachmentOutboxEntries
        (fun db t => { db with attachmentOutboxEntries := t })
        { messageId, queuedAt := ctx.createdAt, nextAttemptAt := ctx.createdAt }
    else
      insertRow Database.outboxEntries (fun db t => { db with outboxEntries := t })
        { messageId, queuedAt := ctx.createdAt }
  else pure ()

/-- Inserts an outbound message with its outbox entry. -/
def createOutbound (ctx : SendContext Digest) (row : Uuid → EmailMessage Digest) :
    Transaction Digest Uuid := do
  let message ← createMessage row
  createOutboxEntry ctx message.id
  pure message.id

def outboundIntended (ctx : SendContext Digest) (conversationId messageId : Uuid) :
    ConversationEventInput where
  conversationId := conversationId
  type := .messageOutboundIntended
  occurredAt := ctx.now
  actor := .service
  cause := if ctx.request.queued then js "outbox_enqueue" else js "synchronous_send"
  messageId := some messageId

/-- The intent event, then the state change that the intent caused, if any. -/
def appendIntentEvents (ctx : SendContext Digest) (conversationId messageId : Uuid)
    (stateBefore : ConversationState) (stateChanged : Bool) : Transaction Digest Unit := do
  let _ ← appendConversationEvent ctx.config (outboundIntended ctx conversationId messageId)
  if stateChanged then
    let _ ← appendConversationEvent ctx.config
      { conversationId
        type := .stateChanged
        occurredAt := ctx.now
        actor := .service
        cause := js "outbound_intent"
        state := some (some stateBefore, .awaitingParticipant) }
    pure ()
  else pure ()

/-- The subject of an opening. -/
def openingSubject (value : CreateConversationV2Input) : JsString :=
  normalizeSubject (value.subject.getD value.topic.title)

/-- The transaction of `createConversationV2`. -/
def openConversation (ctx : SendContext Digest) (value : CreateConversationV2Input) :
    Transaction Digest Uuid := do
  let allowed ← lockAllowedEmailIdentities value.message.from.address value.message.replyTo.address
  Tx.ensure allowed .identityNotAllowed
  let subject := openingSubject value
  let conversationId ← freshId
  let token ← freshId
  let replyToAddress ← Tx.orThrow (buildConversationReplyTo ctx.rt.toLowerCase
    value.message.replyTo.address (uuidText token)) replyToConfigurationError
  createConversation
    { id := conversationId
      routingToken := uuidText token
      apiVersion := some .v2
      topicType := some value.topic.type
      externalTopicId := some value.topic.externalId
      title := value.topic.title
      subject
      participantAddress := value.participant.email
      participantName := value.participant.name
      replyToBaseAddress := some value.message.replyTo.address
      replyToRequiresAllowlist := true
      state := .awaitingParticipant
      stateChangedAt := ctx.createdAt
      lastMessageAt := ctx.now
      createdAt := ctx.createdAt
      eventSequence := 0 }
  let id ← createOutbound ctx fun id =>
    messageCreateData ctx value subject replyToAddress id conversationId
  let _ ← claimAttachmentsForMessage ctx.config id value.message.attachments
  let _ ← appendConversationEvent ctx.config
    { conversationId
      type := .created
      occurredAt := ctx.now
      actor := .service
      cause := js "outbound_intent" }
  let _ ← appendConversationEvent ctx.config (outboundIntended ctx conversationId id)
  pure id

/-- The conversation of a topic. -/
def conversationOfTopic (db : Database Digest) (topic : TopicIdentity) : Option EmailConversation :=
  db.conversations.rows.find? fun c =>
    c.topicType == some topic.type && c.externalTopicId == some topic.externalId

/-- Whether the conversation's Reply-To base differs from the requested one. -/
def replyToMismatch (c : EmailConversation) (replyTo : EmailIdentity) : Bool :=
  (c.replyToBaseAddress.bind orNull).any fun base => base != replyTo.address

/-- The transaction of `reopenFailedConversation`; nothing happens while a message of the
conversation has not failed. -/
def reopenConversation (ctx : SendContext Digest) (value : CreateConversationV2Input)
    (conversation : EmailConversation) : Transaction Digest (Option Uuid) := do
  let current ← findConversationOrThrow conversation.id
  let allowed ← lockAllowedEmailIdentities value.message.from.address value.message.replyTo.address
  Tx.ensure allowed .identityNotAllowed
  Tx.ensure (!replyToMismatch current value.message.replyTo) .identityNotAllowed
  let db ← get
  if db.messages.rows.any fun m =>
    m.conversationId == some conversation.id && m.state != .failed then
    pure none
  else do
    let subject := openingSubject value
    let _ ← updateConversation conversation.id fun c =>
      { c with
        apiVersion := some .v2
        title := value.topic.title
        subject := subject
        participantAddress := value.participant.email
        participantName := value.participant.name
        replyToBaseAddress := some value.message.replyTo.address
        replyToRequiresAllowlist := true
        state := .awaitingParticipant
        stateChangedAt := ctx.now
        lastMessageAt := ctx.now }
    let replyToAddress ← Tx.orThrow (buildConversationReplyTo ctx.rt.toLowerCase
      value.message.replyTo.address conversation.routingToken) replyToConfigurationError
    let id ← createOutbound ctx fun id =>
      messageCreateData ctx value subject replyToAddress id conversation.id
    let _ ← claimAttachmentsForMessage ctx.config id value.message.attachments
    appendIntentEvents ctx conversation.id id current.state (current.state != .awaitingParticipant)
    pure (some id)

/-- The transaction of `createMessageV2`. -/
def createReply (ctx : SendContext Digest) (conversationId : Uuid) (value : MessageV2Input)
    (parent : ReplyParent) : Transaction Digest Uuid := do
  let current ← findConversationOrThrow conversationId
  let allowed ← lockAllowedEmailIdentities value.from.address value.replyTo.address
  Tx.ensure allowed .identityNotAllowed
  Tx.ensure (!replyToMismatch current value.replyTo) .identityNotAllowed
  let replyToAddress ← Tx.orThrow (buildConversationReplyTo ctx.rt.toLowerCase
    value.replyTo.address current.routingToken) replyToConfigurationError
  let id ← createOutbound ctx fun id => replyCreateData ctx value current parent replyToAddress id
  let _ ← claimAttachmentsForMessage ctx.config id value.attachments
  let _ ← updateConversation conversationId fun c =>
    { c with
      apiVersion := some .v2
      replyToBaseAddress := some value.replyTo.address
      replyToRequiresAllowlist := true
      lastMessageAt := max c.lastMessageAt ctx.now }
  let stateChanged ← markConversationAwaitingParticipant conversationId ctx.now
  appendIntentEvents ctx conversationId id current.state stateChanged
  pure id

/-- The transaction of `sendDirectEmailV2`. -/
def createDirect (ctx : SendContext Digest) (value : DirectEmailV2Input) :
    Transaction Digest Uuid := do
  let allowed ← lockAllowedEmailIdentity value.from.address .from
  Tx.ensure allowed .identityNotAllowed
  let id ← createOutbound ctx fun id => directCreateData ctx value id
  let _ ← claimAttachmentsForMessage ctx.config id value.attachments
  pure id

/-! ### Reads of the request handlers -/

/-- `emailMessage.findUnique({ where: { idempotencyKey } })`. -/
def findByIdempotencyKey (db : Database Digest) (idempotencyKey : JsString) :
    Option (EmailMessage Digest) :=
  db.messages.rows.find? fun m => m.idempotencyKey == some idempotencyKey

/-- Whether a stored message answers a repetition of the request. -/
def answersReplay [DecidableEq Digest] (rt : Runtime Digest) (request : SendRequest)
    (m : EmailMessage Digest) : Bool :=
  decide (m.requestHash = some (rt.hashSendRequest request)) &&
    match request with
    | .opening _ _ => m.kind == .conversation && m.conversationId.isSome
    | .reply _ conversationId _ => m.conversationId == some conversationId
    | .direct _ _ => m.kind == .direct

/-- `identitiesAreAllowed` before the transaction. -/
def identitiesAreAllowed (db : Database Digest) : SendRequest → Bool
  | .opening _ value =>
      isEmailAddressAllowed db value.message.from.address .from &&
        isEmailAddressAllowed db value.message.replyTo.address .replyTo
  | .reply _ _ value =>
      isEmailAddressAllowed db value.from.address .from &&
        isEmailAddressAllowed db value.replyTo.address .replyTo
  | .direct _ value => isEmailAddressAllowed db value.from.address .from

/-- The message a reply answers: the requested one, else the latest received or accepted. -/
def replyParent (db : Database Digest) (conversationId : Uuid) (requested : Option RequestedId) :
    Option (EmailMessage Digest) :=
  match requested with
  | some requested => (db.messages.get? requested.id).filter fun m =>
      m.conversationId == some conversationId
  | none =>
      (db.messages.selectSorted
        (fun m => m.conversationId == some conversationId &&
          (m.state == .received || m.state == .accepted))
        fun a b => b.emailCreatedAt < a.emailCreatedAt ∨
          (a.emailCreatedAt = b.emailCreatedAt ∧ b.id ≤ a.id)).head?

end ResendConversation
