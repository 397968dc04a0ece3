import ResendConversation.Processes

/-! # Steps of a send request

`createConversationV2`, `createMessageV2` and `sendDirectEmailV2` from the replay lookup to
the response, with `recoverPendingMessage` and `deliverPendingMessage`.  One step is one
access to the database, or one transaction; the transaction of `deliverPendingMessage` stays
open across its provider call and takes two, which the advisory lock on the message id
holds together. -/

namespace ResendConversation

open Foundation

variable {Digest : Type} [DecidableEq Digest]

def identityNotAllowed : JsString :=
  js "The requested email identity is not allowed. Contact the administrator."

def keyAlreadyUsed : JsString := js "Idempotency key was already used for a different request"

def keyInUse : JsString := js "Idempotency key is already in use"

def topicExists : JsString := js "A conversation already exists for this topic"

def parentMetadataUnavailable : JsString :=
  js "Reply parent threading metadata is unavailable"

namespace SendHandler

/-- The same handler in another phase. -/
def goto (h : SendHandler Digest) (phase : SendPhase Digest) : Proc Digest :=
  .send { h with phase }

def respond (h : SendHandler Digest) (response : SendResponse Digest) : Proc Digest :=
  h.goto (.responded response)

def reject (h : SendHandler Digest) (status : ℕ) (error : JsString) : Proc Digest :=
  h.respond (.rejected status error)

/-- The answer to a key that already has a message: a repetition of its request is answered
from the message, any other request with a conflict. -/
def answerStored (rt : Runtime Digest) (h : SendHandler Digest) (m : EmailMessage Digest)
    (conflict : JsString) : Proc Digest :=
  if answersReplay rt h.request m then
    if h.request.queued then h.respond (replayResponse m) else h.goto (.recover m.id)
  else h.reject 409 conflict

/-- After the transaction that stores the message. -/
def afterTransaction (h : SendHandler Digest) (createdAt : Time) (result : Except TxError Uuid)
    (db : Database Digest) (onUnique : SendPhase Digest) :
    Proc Digest :=
  match result with
  | .ok id =>
      if h.request.queued then
        if h.request.isOpening then h.goto (.reload id .queued)
        else
          match db.messages.get? id with
          | some m => h.respond (.message 202 none m)
          | none => h.respond .crashed
      else h.goto (.deliver ⟨id, false, createdAt⟩ .prepare)
  | .error .identityNotAllowed => h.reject 400 identityNotAllowed
  | .error (.attachmentClaim message) => h.reject 400 message
  | .error .uniqueViolation => h.goto onUnique
  | .error _ => h.respond .crashed

end SendHandler

/-! ### Delivery -/

/-- A process that holds the advisory lock on the message id. -/
def Proc.holdsLock (messageId : Uuid) : Proc Digest → Bool
  | .send { phase := .deliver d (.calling _ _), .. } => d.messageId == messageId
  | _ => false

def attachmentStorageError : SendError :=
  .other (js "AttachmentStorageError") (js "Attachment storage storage_get failed")

/-- One attachment of a provider call, with the bytes of its stored object. -/
def buildSendAttachment (s : System Digest) (a : EmailAttachment) :
    Except SendError SendEmailAttachmentInput :=
  if a.state = .stored then
    match s.objects.get? a.storageKey with
    | none => .error attachmentStorageError
    | some object => .ok
        { filename := a.filename
          content := object.2
          contentType := a.contentType
          contentId := a.contentId.bind orNull }
  else .error (.other (js "AttachmentClaimError")
    (js "Attachment " ++ uuidText a.id ++ js " is not stored"))

/-- The attachments of a message for a provider call; `fails` is a failing storage. -/
def buildSendAttachments (s : System Digest) (messageId : Uuid) (fails : Bool) :
    Except SendError (List SendEmailAttachmentInput) :=
  if s.config.attachmentsEnabled then
    match listMessageAttachments s.db messageId with
    | [] => .ok []
    | attachments =>
        if fails then .error attachmentStorageError
        else attachments.mapM (buildSendAttachment s)
  else .ok []

/-- The key of a single send: `email/<id>` or `conversation/<id>`. -/
def singleSendKey (m : EmailMessage Digest) : ProviderKey :=
  match m.kind with
  | .direct => .email m.id
  | .conversation => .conversation m.id

def missingApiKey : SendError :=
  .other (js "Error") (js "Missing RESEND_API_KEY environment variable")

def missingIdempotencyKey : SendError :=
  .other (js "Error") (js "Pending message is missing an idempotency key")

/-- The errors after which `deliverPendingMessage` takes the message for unsent. -/
def isKnownFailure : SendError → Bool
  | .api _ => true
  | .other _ message => (js "Missing RESEND_API_KEY").isPrefixOf message

def SendError.message : SendError → JsString
  | .api error => js s!"Resend API request failed with status {error.status}"
  | .other _ message => message

/-- The `catch` block of `deliverPendingMessage`. -/
def recordSendError (messageId : Uuid) (error : SendError) :
    Transaction Digest (EmailMessage Digest) :=
  updateMessage messageId fun m =>
    { m with
      state := if isKnownFailure error then .failed else .indeterminate
      stateDetail := some (error.message.take 1000) }

/-- The updates of `deliverPendingMessage` after a successful call. -/
def recordSent (config : Config) (messageId : Uuid) (resendEmailId : JsString) :
    Transaction Digest (EmailMessage Digest) := do
  let _ ← updateMessage messageId fun m =>
    { m with
      state := .accepted
      stateDetail := none
      deliveryState := some .unknown
      resendEmailId := some resendEmailId }
  reconcileOutboundDeliveryState config resendEmailId
  let db ← get
  Tx.orThrow (db.messages.get? messageId) .notFound

namespace SendHandler

/-- After `deliverPendingMessage` threw. -/
def afterThrow (h : SendHandler Digest) (d : Delivery) : Proc Digest :=
  h.goto (.reload d.messageId (if d.replay then .replay else .failed))

/-- After `deliverPendingMessage` returned. -/
def afterDelivery (h : SendHandler Digest) (d : Delivery) (m : EmailMessage Digest) : Proc Digest :=
  h.respond (if d.replay then replayResponse m else .message 201 none m)

/-- Ends the transaction of `deliverPendingMessage`.  When an update in it fails, so does the
update of its `catch` block, and the transaction rolls back. -/
def settle (s : System Digest) (pid : ℕ) (h : SendHandler Digest) (d : Delivery) :
    Except SendError JsString → System Digest
  | .ok id =>
      match s.transact (recordSent s.config d.messageId id) with
      | (.ok m, s) => s.become pid (h.goto (.deliver d (.hydrate m)))
      | (.error _, s) => s.become pid (h.afterThrow d)
  | .error error => (s.transact (recordSendError d.messageId error)).2.become pid (h.afterThrow d)

/-- The first part of the transaction of `deliverPendingMessage`: the lock, the read of the
message, and the provider call. -/
def beginDelivery (s : System Digest) (pid : ℕ) (h : SendHandler Digest) (d : Delivery)
    (attachments : List SendEmailAttachmentInput) : Option (System Digest) :=
  if s.procs.rows.any fun p => p.2.holdsLock d.messageId then none
  else
    match s.db.messages.get? d.messageId with
    | none => some (s.become pid (h.afterThrow d))
    | some m =>
        if m.state ≠ .pending then some (s.become pid (h.goto (.deliver d (.hydrate m))))
        else if m.idempotencyKey.isNone then some (h.settle s pid d (.error missingIdempotencyKey))
        else if s.config.resendApiKey then
          let call : ProviderCall :=
            { id := s.db.nextId
              key := singleSendKey m
              messageIds := [m.id]
              payload := [buildSendEmailInput m attachments]
              windowStart := m.createdAt
              checkedAt := d.checkedAt }
          let s := { s with
            db := { s.db with nextId := s.db.nextId + 1 }
            provider := s.provider.place call }
          some (s.become pid (h.goto (.deliver d (.calling m call.id))))
        else some (h.settle s pid d (.error missingApiKey))

/-- `hydrateSentMetadata`. -/
def hydrateSent (rt : Runtime Digest) (s : System Digest) (pid : ℕ) (h : SendHandler Digest)
    (d : Delivery) (m : EmailMessage Digest) (c : Choice Digest) : System Digest :=
  if m.kind = .direct ∨ m.state ≠ .accepted ∨ m.resendEmailId = none ∨
      (m.internetMessageId.bind orNull).isSome then
    s.become pid (h.afterDelivery d m)
  else
    match c.retrieved with
    | none => s.become pid (h.afterDelivery d m)
    | some (internetMessageId, createdAt) =>
        match s.transact (recordOutboundInternetMessageId rt s.config c.scan s.now m.id
            internetMessageId createdAt) with
        | (.ok updated, s) => s.become pid (h.afterDelivery d updated)
        | (.error _, s) => s

def deliver (rt : Runtime Digest) (s : System Digest) (pid : ℕ) (h : SendHandler Digest)
    (d : Delivery) (c : Choice Digest) : DeliveryPhase Digest → Option (System Digest)
  | .prepare =>
      match buildSendAttachments s d.messageId c.fails with
      | .error _ => some (s.become pid (h.afterThrow d))
      | .ok attachments => some (s.become pid (h.goto (.deliver d (.lock attachments))))
  | .lock attachments =>
      if c.fails then some (s.become pid (h.afterThrow d)) else h.beginDelivery s pid d attachments
  | .calling _ callId =>
      if c.fails then some (s.become pid (h.afterThrow d))
      else
        match s.provider.observation callId c.lost with
        | none => none
        | some observation =>
            let s := { s with provider := s.provider.observe callId observation }
            some (h.settle s pid d (sendResult observation))
  | .hydrate m => some (h.hydrateSent rt s pid d m c)

/-- `recoverPendingMessage` up to its delivery. -/
def recover (s : System Digest) (pid : ℕ) (h : SendHandler Digest) (messageId : Uuid) :
    System Digest :=
  match s.db.messages.get? messageId with
  | none => s.become pid (h.respond .crashed)
  | some m =>
      if m.state ≠ .pending then s.become pid (h.respond (replayResponse m))
      else if hasProviderWindowExpired s.now m.createdAt then s.become pid
        (h.goto (.expire messageId))
      else s.become pid (h.goto (.deliver ⟨messageId, true, s.now⟩ .prepare))

/-- The guarded update of `recoverPendingMessage` after the window has passed. -/
def expirePending (messageId : Uuid) : Transaction Digest ℕ :=
  updateMessages (fun m => m.id == messageId && m.state == .pending) fun m =>
    { m with
      state := .indeterminate
      stateDetail := some (js "Pending send exceeded the provider idempotency window") }

def reload (s : System Digest) (pid : ℕ) (h : SendHandler Digest) (messageId : Uuid)
    (mode : ReloadMode) : System Digest :=
  match s.db.messages.get? messageId with
  | none => s.become pid (h.respond .crashed)
  | some m =>
      match mode with
      | .queued => s.become pid (h.respond (.message 202 none m))
      | .replay => s.become pid (h.respond (replayResponse m))
      | .failed => s.become pid (h.respond (.message 502 (some (js "Failed to send email")) m))

/-! ### Storing the message -/

def context (rt : Runtime Digest) (s : System Digest) (h : SendHandler Digest) (c : Choice Digest) :
    SendContext Digest where
  rt := rt
  config := s.config
  now := s.clock c.readAt
  createdAt := s.clock c.createdAt
  idempotencyKey := h.idempotencyKey
  request := h.request

/-- The transaction of the request, whose reply parent is resolved. -/
def storeMessage (ctx : SendContext Digest) (parent : Option ReplyParent) :
    Transaction Digest Uuid :=
  match ctx.request, parent with
  | .opening _ value, _ => openConversation ctx value
  | .reply _ conversationId value, some parent => createReply ctx conversationId value parent
  | .reply _ _ _, none => throw (.error (js "Reply parent not found"))
  | .direct _ value, _ => createDirect ctx value

/-- Where a unique violation of the first transaction leads, once no message has the key. -/
def afterRace (h : SendHandler Digest) : Proc Digest :=
  match h.request with
  | .opening _ _ => h.goto .reopen
  | .reply _ _ _ => h.reject 409 keyInUse
  | .direct _ _ => h.reject 409 keyAlreadyUsed

/-- The conflict that a handler reports when it lost a race to a different request. -/
def raceConflict (h : SendHandler Digest) : JsString :=
  if h.request.isReply then keyInUse else keyAlreadyUsed

/-- The conversation and the parent message of a reply. -/
def loadParent (s : System Digest) (pid : ℕ) (h : SendHandler Digest) : Option (System Digest) :=
  match h.request with
  | .reply _ conversationId value =>
      match s.db.conversations.get? conversationId with
      | none => some (s.become pid (h.reject 404 (js "Conversation not found")))
      | some conversation =>
          if replyToMismatch conversation value.replyTo then
            some (s.become pid (h.reject 400 identityNotAllowed))
          else
            match replyParent s.db conversationId value.replyToMessageId with
            | none => some (s.become pid (h.reject 404 (js "Reply parent not found")))
            | some parent => some (s.become pid (h.goto (.ensureMessageId parent)))
  | _ => none

/-- Goes on to the transaction with the Message-ID of the parent. -/
def withParent (h : SendHandler Digest) (parent : EmailMessage Digest)
    (internetMessageId : JsString) :
    Proc Digest :=
  if internetMessageId.isEmpty then h.reject 409 parentMetadataUnavailable
  else h.goto (.transact (some
    { id := parent.id
      internetMessageId
      references := buildReferences parent.referenceInternetMessageIds internetMessageId }))

/-- The read of `ensureInternetMessageId`. -/
def ensureMessageId (s : System Digest) (pid : ℕ) (h : SendHandler Digest)
    (parent : EmailMessage Digest) : System Digest :=
  match s.db.messages.get? parent.id with
  | none => s.become pid (h.reject 503 parentMetadataUnavailable)
  | some stored =>
      match stored.internetMessageId.bind orNull, stored.resendEmailId.bind orNull with
      | some internetMessageId, _ => s.become pid (h.withParent parent internetMessageId)
      | none, none => s.become pid (h.reject 409 parentMetadataUnavailable)
      | none, some _ => s.become pid (h.goto (.retrieveMessageId parent stored))

/-- The writes of `ensureInternetMessageId` after the provider was asked. -/
def retrieveMessageId (rt : Runtime Digest) (s : System Digest) (pid : ℕ) (h : SendHandler Digest)
    (parent stored : EmailMessage Digest) (c : Choice Digest) : System Digest :=
  match c.retrieved with
  | none => s.become pid (h.reject 503 parentMetadataUnavailable)
  | some (internetMessageId, createdAt) =>
      let write : Transaction Digest (EmailMessage Digest) :=
        if stored.direction = .outbound then
          recordOutboundInternetMessageId rt s.config c.scan s.now stored.id
            internetMessageId createdAt
        else updateMessage stored.id fun m => { m with internetMessageId := some internetMessageId }
      match s.transact write with
      | (.ok _, s) => s.become pid (h.withParent parent internetMessageId)
      | (.error _, s) => s.become pid (h.reject 503 parentMetadataUnavailable)

/-- The lookup by idempotency key after a unique violation. -/
def raced (rt : Runtime Digest) (s : System Digest) (h : SendHandler Digest) : Proc Digest :=
  match findByIdempotencyKey s.db h.idempotencyKey with
  | some m => h.answerStored rt m h.raceConflict
  | none => h.afterRace

/-- The transaction of `reopenFailedConversation`. -/
def reopenTransact (rt : Runtime Digest) (s : System Digest) (pid : ℕ) (h : SendHandler Digest)
    (conversation : EmailConversation) (c : Choice Digest) : Option (System Digest) :=
  match h.request with
  | .opening _ value =>
      let ctx := h.context rt s c
      match s.transact (reopenConversation ctx value conversation) with
      | (.ok none, s) => some (s.become pid (h.reject 409 topicExists))
      | (.ok (some id), s) =>
          some (s.become pid (h.afterTransaction ctx.createdAt (.ok id) s.db .racedReopen))
      | (.error error, s) =>
          some (s.become pid (h.afterTransaction ctx.createdAt (.error error) s.db .racedReopen))
  | _ => none

def step (rt : Runtime Digest) (s : System Digest) (pid : ℕ) (h : SendHandler Digest)
    (c : Choice Digest) : Option (System Digest) :=
  match h.phase with
  | .lookup =>
      match findByIdempotencyKey s.db h.idempotencyKey with
      | some m => some (s.become pid (h.answerStored rt m keyAlreadyUsed))
      | none => some (s.become pid (h.goto .authorize))
  | .authorize =>
      if identitiesAreAllowed s.db h.request then
        some (s.become pid (h.goto (if h.request.isReply then .loadParent else .transact none)))
      else some (s.become pid (h.reject 400 identityNotAllowed))
  | .loadParent => h.loadParent s pid
  | .ensureMessageId parent => some (h.ensureMessageId s pid parent)
  | .retrieveMessageId parent stored => some (h.retrieveMessageId rt s pid parent stored c)
  | .transact parent =>
      let ctx := h.context rt s c
      let (result, s) := s.transact (storeMessage ctx parent)
      some (s.become pid (h.afterTransaction ctx.createdAt result s.db .raced))
  | .raced => some (s.become pid (h.raced rt s))
  | .reopen =>
      match h.request with
      | .opening _ value =>
          match conversationOfTopic s.db value.topic with
          | none => some (s.become pid (h.reject 409 topicExists))
          | some conversation => some (s.become pid (h.goto (.reopenTransact conversation)))
      | _ => none
  | .reopenTransact conversation => h.reopenTransact rt s pid conversation c
  | .racedReopen =>
      match findByIdempotencyKey s.db h.idempotencyKey with
      | some m => some (s.become pid (h.answerStored rt m keyInUse))
      | none => some (s.become pid (h.reject 409 keyInUse))
  | .recover messageId => some (h.recover s pid messageId)
  | .expire messageId =>
      let (_, s) := s.transact (expirePending messageId)
      some (s.become pid (h.goto (.reload messageId .replay)))
  | .deliver d phase => h.deliver rt s pid d c phase
  | .reload messageId mode => some (h.reload s pid messageId mode)
  | .responded _ => none

end SendHandler

end ResendConversation
