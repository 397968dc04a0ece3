import ResendConversation.Conversation
import ResendConversation.Cursors
import ResendConversation.Foundation.Keyset

/-! # Listings

The reads of the conversation API: the work queue (`routes/conversations/v2/summary/route.ts`), the
unassigned conversations (`GET` of `routes/conversations/v2/route.ts`) and the messages of a
conversation (`getConversationResponse` of `lib/api.ts`), with the texts that they answer.

A handler reads one database.  Where the source throws, it is answered with status 500
(`ReadError.thrown`); a date that is out of range throws when it is written.  The letter case of
the language and its readers of other date formats are parameters. -/

namespace ResendConversation

open Foundation JsString

variable {Digest : Type}

/-! ### Requests -/

/-- The query parameters of a request, in order. -/
abbrev SearchParams := List (JsString × JsString)

namespace SearchParams

def get (params : SearchParams) (name : String) : Option JsString :=
  (params.find? fun p => p.1 == js name).map Prod.snd

def getAll (params : SearchParams) (name : String) : List JsString :=
  (params.filter fun p => p.1 == js name).map Prod.snd

/-- The parameters with a cursor in place of any other. -/
def withBefore (params : SearchParams) (cursor : Option JsString) : SearchParams :=
  (params.filter fun p => p.1 != js "before") ++ (cursor.map fun c => (js "before", c)).toList

end SearchParams

inductive ReadError where
  | refused (status : ℕ) (error : JsString)
  | thrown
deriving DecidableEq

/-- The value of a computation that may throw. -/
def orThrown {α : Type} (value : Option α) : Except ReadError α :=
  match value with
  | some a => .ok a
  | none => .error .thrown

/-- `Number.parseInt(value, 10)` when it is finite. -/
def parseInt (value : JsString) : Option ℤ :=
  let s := trimStart value
  let negative := s.head? = some 45
  let digits := (if negative ∨ s.head? = some 43 then s.tail else s).takeWhile isDigit
  let n := Digits.value 10 (digits.map fun c => c.toNat - 48)
  if digits.isEmpty ∨ 2 ^ 1024 - 2 ^ 970 ≤ n then none else some (if negative then -n else n)

def getPageLimit (params : SearchParams) : ℕ :=
  match (params.get "limit").bind orNull with
  | none => 50
  | some value =>
      match parseInt value with
      | none => 50
      | some parsed => (min (max parsed 1) 100).toNat

/-! ### Texts of enumerations -/

def conversationStates : List ConversationState :=
  [.awaitingUs, .awaitingParticipant, .concluded, .terminated]

def ConversationState.name : ConversationState → JsString
  | .awaitingUs => js "AWAITING_US"
  | .awaitingParticipant => js "AWAITING_PARTICIPANT"
  | .concluded => js "CONCLUDED"
  | .terminated => js "TERMINATED"

def parseConversationState (toUpperCase : JsString → JsString) (value : JsString) :
    Option ConversationState :=
  conversationStates.find? fun state => state.name == toUpperCase (trim value)

def serializeConversationState : ConversationState → JsString
  | .awaitingUs => js "awaiting_us"
  | .awaitingParticipant => js "awaiting_participant"
  | .concluded => js "concluded"
  | .terminated => js "terminated"

def conversationStateError : JsString :=
  js "state must be one of " ++ join (js ", ") (conversationStates.map serializeConversationState)

def EmailDirection.serialize : EmailDirection → JsString
  | .inbound => js "inbound"
  | .outbound => js "outbound"

def EmailMessageState.serialize : EmailMessageState → JsString
  | .received => js "received"
  | .pending => js "pending"
  | .accepted => js "accepted"
  | .failed => js "failed"
  | .indeterminate => js "indeterminate"

def EmailDeliveryState.serialize : EmailDeliveryState → JsString
  | .unknown => js "unknown"
  | .delivered => js "delivered"
  | .deliveryDelayed => js "delivery_delayed"
  | .bounced => js "bounced"
  | .complained => js "complained"
  | .suppressed => js "suppressed"
  | .failed => js "failed"

def EmailAttachmentState.serialize : EmailAttachmentState → JsString
  | .pending => js "pending"
  | .stored => js "stored"
  | .failed => js "failed"

def EmailAttachmentDisposition.serialize : EmailAttachmentDisposition → JsString
  | .attachment => js "attachment"
  | .inline => js "inline"

/-! ### Parts of a response -/

structure SerializedTopic where
  type : JsString
  externalId : JsString
  title : JsString
deriving DecidableEq

/-- `{ address, name }`. -/
structure SerializedAddress where
  address : JsString
  name : Option JsString
deriving DecidableEq

/-- The topic of a conversation that has both of its columns. -/
def serializeTopic (c : EmailConversation) : Option SerializedTopic := do
  let type ← c.topicType.bind orNull
  let externalId ← c.externalTopicId.bind orNull
  some { type, externalId, title := c.title }

/-! ### The summary listing -/

/-- Accepts repeated and comma-separated values; no filter means every state. -/
def parseStateFilter (toUpperCase : JsString → JsString) (values : List JsString) :
    Option (List ConversationState) :=
  let requested := values.flatMap (split 44)
  if requested.isEmpty then some conversationStates
  else (requested.mapM (parseConversationState toUpperCase)).map unique

structure SummaryItem where
  id : JsString
  topic : Option SerializedTopic
  title : JsString
  subject : JsString
  participant : SerializedAddress
  state : JsString
  stateChangedAt : JsString
  awaitingReply : Bool
  lastMessageAt : JsString
deriving DecidableEq

structure SummaryResponse where
  count : ℕ
  counts : List (JsString × ℕ)
  conversations : List SummaryItem
  hasMore : Bool
  before : Option JsString
deriving DecidableEq

/-- The item of a conversation, with the texts of its dates. -/
def SummaryItem.of (c : EmailConversation) (stateChangedAt lastMessageAt : JsString) :
    SummaryItem where
  id := uuidText c.id
  topic := serializeTopic c
  title := c.title
  subject := c.subject
  participant := ⟨c.participantAddress, c.participantName⟩
  state := serializeConversationState c.state
  stateChangedAt
  awaitingReply := c.state == .awaitingUs
  lastMessageAt

def summaryItem (c : EmailConversation) : Option SummaryItem := do
  let stateChangedAt ← toISOString c.stateChangedAt
  let lastMessageAt ← toISOString c.lastMessageAt
  some (SummaryItem.of c stateChangedAt lastMessageAt)

def encodeSummaryCursor (c : EmailConversation) : Option JsString :=
  encodeCursor c.stateChangedAt c.id

/-- `orderBy: [{ stateChangedAt: 'asc' }, { id: 'asc' }]`. -/
def summaryKey (c : EmailConversation) : ℤ ×ₗ ℕ := toLex (c.stateChangedAt, c.id)

/-- The cursor of the previous page, when it is its last row and rows are left. -/
def nextCursor {α : Type} (hasMore : Bool) (last : Option α) (encode : α → Option JsString) :
    Option (Option JsString) :=
  match hasMore, last with
  | true, some row => (encode row).map some
  | _, _ => some none

/-- The position of the `before` parameter, `none` when it is no cursor. -/
def readCursor (other : JsString → Option Time) (params : SearchParams) :
    Option (Option (Time × Uuid)) :=
  match (params.get "before").bind orNull with
  | none => some none
  | some value => (decodeCursor other value).map some

/-- `groupBy` of all conversations by state, looked up for every state. -/
def stateCounts (db : Database Digest) : List (JsString × ℕ) :=
  conversationStates.map fun state =>
    (serializeConversationState state, db.conversations.count fun c => c.state == state)

/-- `GET /conversations/v2/summary`. -/
def getSummary (toUpperCase : JsString → JsString) (other : JsString → Option Time)
    (db : Database Digest) (params : SearchParams) : Except ReadError SummaryResponse :=
  match parseStateFilter toUpperCase (params.getAll "state") with
  | none => .error (.refused 400 conversationStateError)
  | some selected =>
      match readCursor other params with
      | none => .error (.refused 400 (js "Invalid conversation cursor"))
      | some before => do
          let limit := getPageLimit params
          let conversations :=
            (Keyset.sortedRows db.conversations (fun c => selected.contains c.state &&
            before.all fun b =>
              decide (b.1 < c.stateChangedAt) || (c.stateChangedAt == b.1 && decide (b.2 < c.id)))
            summaryKey).take (limit + 1)
          let hasMore := decide (limit < conversations.length)
          let page := conversations.take limit
          let items ← orThrown (page.mapM summaryItem)
          let cursor ← orThrown (nextCursor hasMore page.getLast? encodeSummaryCursor)
          pure
            { count :=
                (selected.map fun state => db.conversations.count fun c => c.state == state).sum
              counts := stateCounts db
              conversations := items
              hasMore
              before := cursor }

/-! ### The unassigned listing -/

structure UnassignedItem where
  id : JsString
  title : JsString
  participant : SerializedAddress
  lastMessageAt : JsString
deriving DecidableEq

structure UnassignedResponse where
  conversations : List UnassignedItem
  hasMore : Bool
  before : Option JsString
deriving DecidableEq

def UnassignedItem.of (c : EmailConversation) (lastMessageAt : JsString) : UnassignedItem where
  id := uuidText c.id
  title := c.title
  participant := ⟨c.participantAddress, c.participantName⟩
  lastMessageAt

def unassignedItem (c : EmailConversation) : Option UnassignedItem :=
  (toISOString c.lastMessageAt).map (UnassignedItem.of c)

def encodeConversationCursor (c : EmailConversation) : Option JsString :=
  encodeCursor c.lastMessageAt c.id

/-- `orderBy: [{ lastMessageAt: 'desc' }, { id: 'desc' }]`. -/
def unassignedKey (c : EmailConversation) : (ℤ ×ₗ ℕ)ᵒᵈ :=
  OrderDual.toDual (toLex (c.lastMessageAt, c.id))

/-- `GET /conversations/v2`. -/
def getUnassigned (other : JsString → Option Time) (db : Database Digest) (params : SearchParams) :
    Except ReadError UnassignedResponse :=
  if params.get "assignment" ≠ some (js "unassigned") then
    .error (.refused 400 (js "Only assignment=unassigned is supported"))
  else
    match readCursor other params with
    | none => .error (.refused 400 (js "Invalid conversation cursor"))
    | some before => do
        let limit := getPageLimit params
        let conversations := (Keyset.sortedRows db.conversations (fun c => c.topicType.isNone &&
          c.externalTopicId.isNone && before.all fun b => decide (c.lastMessageAt < b.1) ||
            (c.lastMessageAt == b.1 && decide (c.id < b.2))) unassignedKey).take (limit + 1)
        let hasMore := decide (limit < conversations.length)
        let page := conversations.take limit
        let items ← orThrown (page.mapM unassignedItem)
        let cursor ← orThrown (nextCursor hasMore page.getLast? encodeConversationCursor)
        pure { conversations := items, hasMore, before := cursor }

/-! ### The messages of a conversation -/

structure SerializedAttachment where
  id : JsString
  filename : JsString
  contentType : JsString
  disposition : JsString
  contentId : Option JsString
  sizeBytes : ℕ
  state : JsString
  downloadPath : Option JsString
deriving DecidableEq

def serializeAttachment (a : EmailAttachment) : SerializedAttachment where
  id := uuidText a.id
  filename := a.filename
  contentType := a.contentType
  disposition := a.contentDisposition.serialize
  contentId := a.contentId
  sizeBytes := a.sizeBytes
  state := a.state.serialize
  -- only a stored object can be served
  downloadPath :=
    if a.state = .stored then some (js "/api/attachments/v2/" ++ uuidText a.id) else none

structure SerializedMessage where
  id : JsString
  parentMessageId : Option JsString
  direction : JsString
  state : JsString
  stateDetail : Option JsString
  deliveryState : Option JsString
  deliveryStateDetail : Option JsString
  deliveredAt : Option JsString
  resendEmailId : Option JsString
  internetMessageId : Option JsString
  «from» : SerializedAddress
  «to» : JsString
  replyTo : Option JsString
  replyToName : Option JsString
  subject : JsString
  text : Option JsString
  html : Option JsString
  createdAt : JsString
  attachments : Option (List SerializedAttachment)
deriving DecidableEq

/-- The item of a message, with the texts of its dates. -/
def SerializedMessage.of (config : Config) (m : EmailMessage Digest)
    (attachments : List EmailAttachment) (deliveredAt : Option JsString) (createdAt : JsString) :
    SerializedMessage where
  id := uuidText m.id
  parentMessageId := m.parentMessageId.map uuidText
  direction := m.direction.serialize
  state := m.state.serialize
  stateDetail := m.stateDetail
  deliveryState :=
    if m.direction = .outbound then some (m.deliveryState.getD .unknown).serialize else none
  deliveryStateDetail := if m.direction = .outbound then m.deliveryStateDetail else none
  deliveredAt
  resendEmailId := m.resendEmailId
  internetMessageId := m.internetMessageId
  «from» := ⟨m.fromAddress, m.fromName⟩
  «to» := m.toAddress
  replyTo := m.replyToAddress
  replyToName := m.replyToName
  subject := m.subject
  text := m.textBody
  html := m.htmlBody
  createdAt
  attachments :=
    if config.attachmentsEnabled then some (attachments.map serializeAttachment) else none

/-- The text of a date that may be missing. -/
def toISOString? : Option Time → Option (Option JsString)
  | none => some none
  | some t => (toISOString t).map some

def serializeMessage (config : Config) (m : EmailMessage Digest)
    (attachments : List EmailAttachment) :
    Option SerializedMessage := do
  let deliveredAt ← toISOString? (if m.direction = .outbound then m.deliveredAt else none)
  let createdAt ← toISOString m.emailCreatedAt
  some (SerializedMessage.of config m attachments deliveredAt createdAt)

structure ConversationResponse where
  id : JsString
  topic : Option SerializedTopic
  title : JsString
  subject : JsString
  participant : SerializedAddress
  replyToAddress : JsString
  state : JsString
  stateChangedAt : JsString
  awaitingReply : Bool
  lastMessageAt : JsString
  createdAt : JsString
  updatedAt : JsString
  messages : List SerializedMessage
  hasMoreBefore : Bool
  before : Option JsString
deriving DecidableEq

/-- `updatedAt` is the column that the database client writes at every change of the row; no other
function reads it, and the rows of the model are without it. -/
def serializeConversation (config : Config) (toLowerCase : JsString → JsString)
    (c : EmailConversation) (updatedAt : Time) (messages : List (EmailMessage Digest))
    (hasMoreBefore : Bool) (attachmentsByMessage : Uuid → List EmailAttachment) :
    Option ConversationResponse := do
  let replyToAddress ← buildConversationReplyTo toLowerCase
    ((c.replyToBaseAddress.or config.resendReplyTo).getD []) c.routingToken
  let stateChangedAt ← toISOString c.stateChangedAt
  let lastMessageAt ← toISOString c.lastMessageAt
  let createdAt ← toISOString c.createdAt
  let updatedAt ← toISOString updatedAt
  let items ← messages.mapM fun m => serializeMessage config m (attachmentsByMessage m.id)
  some
    { id := uuidText c.id
      topic := serializeTopic c
      title := c.title
      subject := c.subject
      participant := ⟨c.participantAddress, c.participantName⟩
      replyToAddress
      state := serializeConversationState c.state
      stateChangedAt
      awaitingReply := c.state == .awaitingUs
      lastMessageAt
      createdAt
      updatedAt
      messages := items
      hasMoreBefore
      before := if hasMoreBefore then messages.head?.map fun m => uuidText m.id else none }

/-- The attachments of the messages, grouped by message. -/
def loadAttachmentsByMessage (config : Config) (db : Database Digest) (messageIds : List Uuid) :
    Uuid → List EmailAttachment :=
  if config.attachmentsEnabled then
    let attachments := Keyset.sortedRows db.attachments
      (fun a => a.messageId.any messageIds.contains) EmailAttachment.id
    fun messageId => attachments.filter fun a => a.messageId == some messageId
  else fun _ => []

/-- `orderBy: [{ emailCreatedAt: 'desc' }, { id: 'desc' }]`. -/
def messageKey (m : EmailMessage Digest) : (ℤ ×ₗ ℕ)ᵒᵈ :=
  OrderDual.toDual (toLex (m.emailCreatedAt, m.id))

/-- The first messages of a conversation in its listing, or the first ones behind a message. -/
def messagesBefore (db : Database Digest) (conversationId : Uuid)
    (before : Option (EmailMessage Digest)) (count : ℕ) : List (EmailMessage Digest) :=
  (Keyset.sortedRows db.messages (fun m => m.conversationId == some conversationId &&
    before.all fun b => decide (m.emailCreatedAt < b.emailCreatedAt) ||
      (m.emailCreatedAt == b.emailCreatedAt && decide (m.id < b.id))) messageKey).take count

/-- `getConversationResponse`, for a condition that at most one conversation meets. -/
def getConversationResponse (config : Config) (toLowerCase : JsString → JsString)
    (updatedAt : Uuid → Time) (db : Database Digest) (params : SearchParams)
    (target : EmailConversation → Bool) :
    Except ReadError ConversationResponse :=
  match db.conversations.rows.find? target with
  | none => .error (.refused 404 (js "Conversation not found"))
  | some conversation =>
      let limit := getPageLimit params
      let beforeId := (params.get "before").bind orNull
      if beforeId.any fun id => !isUuid id then .error (.refused 400 (js "Invalid message cursor"))
      else
        let before := beforeId.bind fun id =>
          db.messages.rows.find? fun m =>
            m.id == uuidOfText id && m.conversationId == some conversation.id
        if beforeId.isSome ∧ before = none then .error (.refused 400 (js "Invalid message cursor"))
        else
          let messages := messagesBefore db conversation.id before (limit + 1)
          let hasMoreBefore := decide (limit < messages.length)
          let page := (messages.take limit).reverse
          orThrown (serializeConversation config toLowerCase conversation
            (updatedAt conversation.id) page
            hasMoreBefore (loadAttachmentsByMessage config db (page.map EmailMessage.id)))

end ResendConversation
