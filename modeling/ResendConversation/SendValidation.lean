import ResendConversation.Json
import ResendConversation.Requests

/-! # Validation of send requests

`lib/send-validation.ts` over the field checks of `lib/api.ts`: a request body, any JSON value,
becomes the normalised value of its operation or the text of an error.  `hashSendRequest` is
applied to the JSON text of that value together with the operation and the conversation of a
reply: `ValidatedRequest.preimage`. -/

namespace ResendConversation

open JsString Json

/-! ### Field checks -/

def maxTitleLength : ℕ := 255
def maxSubjectLength : ℕ := 255
def maxNameLength : ℕ := 256
def maxBodyLength : ℕ := 1048576
def maxTagLength : ℕ := 256
def maxRequestContentIdLength : ℕ := 255
def maxRecipients : ℕ := 50
def maxTags : ℕ := 10

def isControlCharacter (c : UInt16) : Bool := c < 32 || c == 127

def containsControlCharacter (value : JsString) : Bool := value.any isControlCharacter

def isHeaderSafeText (value : JsString) (maxLength : ℕ) : Bool :=
  value.length ≤ maxLength && !containsControlCharacter value

/-- `/^[^\s@]+@[^\s@]+\.[^\s@]+$/`: one at sign, and a full stop inside the domain. -/
def isEmailAddress (value : JsString) : Bool :=
  value.length ≤ 320 && !value.any isSpace &&
    match split 64 value with
    | [localPart, domain] => !localPart.isEmpty && domain.tail.dropLast.contains 46
    | _ => false

def isHexDigit (c : UInt16) : Bool := isDigit c || (97 ≤ c && c ≤ 102) || (65 ≤ c && c ≤ 70)

/-- `/^[0-9a-f]{8}-[0-9a-f]{4}-[1-8][0-9a-f]{3}-[89ab][0-9a-f]{3}-[0-9a-f]{12}$/i`. -/
def isUuid (value : JsString) : Bool :=
  match split 45 value with
  | [a, b, c, d, e] =>
      a.length == 8 && b.length == 4 && c.length == 4 && d.length == 4 && e.length == 12 &&
        [a, b, c, d, e].all (fun group => group.all isHexDigit) &&
        c.head?.any (fun v => 49 ≤ v && v ≤ 56) && d.head?.any (fun v => (js "89abAB").contains v)
  | _ => false

def isAngleBracket (c : UInt16) : Bool := c == 60 || c == 62

/-! ### Errors -/

def check (b : Bool) (error : JsString) : Except JsString Unit := if b then .ok () else .error error

def orError {α : Type} (value : Option α) (error : JsString) : Except JsString α :=
  match value with
  | some a => .ok a
  | none => .error error

/-- The name of an element of an array field. -/
def elementName (fieldName : JsString) (index : ℕ) : JsString :=
  fieldName ++ js "[" ++ js (toString index) ++ js "]"

/-- Applies `f` to the elements with their index, up to the first error. -/
def forEntries {α : Type} (f : ℕ → Option Json → Except JsString α) :
    ℕ → List (Option Json) → Except JsString (List α)
  | _, [] => .ok []
  | index, item :: items => do
      let a ← f index item
      let rest ← forEntries f (index + 1) items
      pure (a :: rest)

/-! ### Parts of a body -/

/-- The trimmed text of a field that must be a nonblank header-safe string. -/
def requiredText (value : Option Json) (maxLength : ℕ) : Option JsString :=
  match value with
  | some (.string s) =>
      if isHeaderSafeText s maxLength && !(trim s).isEmpty then some (trim s) else none
  | _ => none

/-- The trimmed text of a field that may be absent, `null` or blank, and otherwise must be a
header-safe string without the refused characters. -/
def optionalText (value : Option Json) (maxLength : ℕ) (refused : UInt16 → Bool) :
    Option (Option JsString) :=
  match value with
  | none | some .null => some none
  | some (.string s) =>
      if isHeaderSafeText s maxLength && !s.any refused then some (orNull (trim s)) else none
  | _ => none

def normalizeReplyToName (value : Option Json) : Option (Option JsString) :=
  optionalText value maxNameLength isAngleBracket

/-- `/^[a-z][a-z0-9_-]{0,63}$/`. -/
def isTopicType (value : JsString) : Bool :=
  value.length ≤ 64 && value.head?.any isLowerLetter &&
    value.all fun c => isLowerLetter c || isDigit c || c == 95 || c == 45

/-- The topic of a body. -/
def topicIdentity (topic : Option Json) : Option TopicIdentity := do
  let type ← (asString (field "type" topic)).filter isTopicType
  let externalId ← (asString (field "externalId" topic)).filter fun id =>
      !id.isEmpty && id.length ≤ 255
  let title ← requiredText (field "title" topic) maxTitleLength
  pure ⟨type, externalId, title⟩

/-- A body text, when it is a nonempty string. -/
def bodyText (value : Option Json) : Option JsString := (asString value).bind orNull

def bodyFits (text html : Option JsString) : Bool :=
  (text.getD []).length ≤ maxBodyLength && (html.getD []).length ≤ maxBodyLength

/-- The subject of an opening: absent, blank, or a header-safe string. -/
def optionalSubject (value : Option Json) : Option (Option JsString) :=
  match value with
  | none => some none
  | some (.string s) => if isHeaderSafeText s maxSubjectLength then some (orNull (trim s)) else none
  | _ => none

structure CreateMessageInput where
  text : Option JsString
  html : Option JsString
  replyToName : Option JsString

structure CreateConversationInput where
  topic : TopicIdentity
  participant : ParticipantInput
  subject : Option JsString
  message : CreateMessageInput

def validateCreateBody (value : Option Json) : Except JsString CreateConversationInput := do
  let participant := field "participant" value
  let message := field "message" value
  check (isRecord value && isRecord (field "topic" value) && isRecord participant)
    (js "topic and participant objects are required")
  let topic ← orError (topicIdentity (field "topic" value))
    (js "topic type, externalId, and title are invalid")
  let email ← orError ((asString (field "email" participant)).filter isEmailAddress)
    (js "participant.email must be a valid email address")
  let name ← orError (optionalText (field "name" participant) maxNameLength fun _ => false)
    (js "participant.name is invalid")
  let text := bodyText (field "text" message)
  let html := bodyText (field "html" message)
  let replyToName ← orError (normalizeReplyToName (field "replyToName" message))
    (js "message.replyToName must be a header-safe string of at most 256 characters")
  check (text.isSome || html.isSome) (js "message.text or message.html is required")
  check (bodyFits text html) (js "message.text and message.html are limited to 1 MiB each")
  let subject ← orError (optionalSubject (field "subject" value))
    (js "subject must be a header-safe string of at most 255 characters")
  pure ⟨topic, ⟨email, name⟩, subject, ⟨text, html, replyToName⟩⟩

structure MessageInput where
  text : Option JsString
  html : Option JsString
  replyToMessageId : Option JsString
  replyToName : Option JsString

/-- A field that may be absent and is otherwise a UUID. -/
def optionalUuid (value : Option Json) (error : JsString) : Except JsString (Option JsString) :=
  match value with
  | none => .ok none
  | some id => (orError ((asString (some id)).filter isUuid) error).map some

def validateMessageBody (value : Option Json) : Except JsString MessageInput := do
  check (isRecord value) (js "Request body must be an object")
  let text := bodyText (field "text" value)
  let html := bodyText (field "html" value)
  let replyToName ← orError (normalizeReplyToName (field "replyToName" value))
    (js "replyToName must be a header-safe string of at most 256 characters")
  check (text.isSome || html.isSome) (js "text or html is required")
  check (bodyFits text html) (js "text and html are limited to 1 MiB each")
  let replyToMessageId ← optionalUuid (field "replyToMessageId" value)
      (js "replyToMessageId must be a UUID")
  pure ⟨text, html, replyToMessageId, replyToName⟩

def normalizeEmailIdentity (toLowerCase : JsString → JsString) (value : Option Json)
    (fieldName : JsString) (replyTo : Bool) : Except JsString EmailIdentity := do
  let text ← orError (asString (field "address" value))
    (fieldName ++ js ".address must be a valid email address")
  let address := toLowerCase (trim text)
  check (isEmailAddress address && (!replyTo || isValidReplyToBaseAddress toLowerCase address))
    (fieldName ++ if replyTo then js ".address must be an untagged Reply-To base address"
      else js ".address must be a valid email address")
  let name ← orError (optionalText (field "name" value) maxNameLength isAngleBracket)
    (fieldName ++ js ".name must be a header-safe string of at most 256 characters")
  pure ⟨address, name⟩

def normalizeEmailIdentities (toLowerCase : JsString → JsString) (value : Option Json)
    (fieldName : JsString) : Except JsString (List EmailIdentity) :=
  match value with
  | some (.array items) => do
      check (!items.isEmpty) (fieldName ++ js " must contain at least one recipient")
      check (items.length ≤ maxRecipients) (fieldName ++ js " must contain at most 50 recipients")
      forEntries (fun index item => normalizeEmailIdentity toLowerCase item
        (elementName fieldName index) false)
        0 (items.map some)
  | _ =>
      match normalizeEmailIdentity toLowerCase value (elementName fieldName 0) false with
      | .ok identity => .ok [identity]
      | .error _ => .error (fieldName ++ js ".address must be a valid email address")

/-- A list, or `undefined` when it is empty. -/
def orUndefined {α : Type} (values : List α) : Option (List α) :=
  if values.isEmpty then none else some values

def normalizeTag (fieldName : JsString) (item : Option Json) : Except JsString EmailTag := do
  let invalid := fieldName ++ js ".name and " ++ fieldName ++
    js ".value must be nonempty header-safe strings of at most 256 characters"
  let name ← orError (requiredText (field "name" item) maxTagLength) invalid
  let value ← orError (requiredText (field "value" item) maxTagLength) invalid
  pure ⟨name, value⟩

def normalizeTags (value : Option Json) (fieldName : JsString) :
    Except JsString (Option (List EmailTag)) :=
  match value with
  | none => .ok none
  | some (.array items) => do
      check (items.length ≤ maxTags) (fieldName ++ js " must contain at most 10 tags")
      let tags ← forEntries (fun index item => normalizeTag (elementName fieldName index) item) 0
        (items.map some)
      pure (orUndefined tags)
  | some _ => .error (fieldName ++ js " must be an array")

/-- An attachment reference of a normalised value; the identifier is its text. -/
structure AttachmentRef where
  id : JsString
  contentId : Option JsString
deriving DecidableEq

/-- `/[s<>]/`. -/
def isRefusedInContentId (c : UInt16) : Bool := c == 115 || isAngleBracket c

/-- The content id of an attachment reference. -/
def contentIdText (value : Json) : Option JsString :=
  match value with
  | .string s =>
      if isHeaderSafeText s maxRequestContentIdLength && !(trim s).isEmpty &&
        !s.any isRefusedInContentId then
        some (trim s)
      else none
  | _ => none

def normalizeAttachmentRef (toLowerCase : JsString → JsString) (fieldName : JsString)
    (seen : List JsString) (item : Option Json) : Except JsString AttachmentRef := do
  let text ← orError ((asString (field "id" item)).filter isUuid)
      (fieldName ++ js ".id must be a UUID")
  let id := toLowerCase text
  check (!seen.contains id) (fieldName ++ js ".id is duplicated")
  match field "contentId" item with
  | none => pure ⟨id, none⟩
  | some value => do
      let contentId ← orError (contentIdText value)
        (fieldName ++ js ".contentId must be a header-safe token of at most 255 characters")
      pure ⟨id, some contentId⟩

def normalizeAttachmentEntries (toLowerCase : JsString → JsString) (fieldName : JsString) :
    List JsString → ℕ → List (Option Json) → Except JsString (List AttachmentRef)
  | _, _, [] => .ok []
  | seen, index, item :: items => do
      let ref ← normalizeAttachmentRef toLowerCase (elementName fieldName index) seen item
      let rest ← normalizeAttachmentEntries toLowerCase fieldName (seen ++ [ref.id])
          (index + 1) items
      pure (ref :: rest)

def normalizeAttachmentRefs (toLowerCase : JsString → JsString) (config : Config)
    (value : Option Json) (fieldName : JsString) : Except JsString (Option (List AttachmentRef)) :=
  match value with
  | none => .ok none
  | some value => do
      check config.attachmentsEnabled
        (fieldName ++ js " is not supported because attachments are disabled")
      match value with
      | .array items => do
          check (items.length ≤ config.maxCount)
            (fieldName ++ js " must contain at most " ++ js (toString config.maxCount) ++
              js " attachments")
          let refs ← normalizeAttachmentEntries toLowerCase fieldName [] 0 (items.map some)
          pure (orUndefined refs)
      | _ => .error (fieldName ++ js " must be an array")

/-! ### Bodies -/

/-- The parts of a body that all its operations share. -/
structure OpeningMessageValue where
  text : Option JsString
  html : Option JsString
  «from» : EmailIdentity
  «to» : Option (List EmailIdentity)
  replyTo : EmailIdentity
  tags : Option (List EmailTag)
  attachments : Option (List AttachmentRef)
deriving DecidableEq

structure CreateV2Value where
  topic : TopicIdentity
  participant : ParticipantInput
  subject : Option JsString
  message : OpeningMessageValue
deriving DecidableEq

structure MessageV2Value where
  text : Option JsString
  html : Option JsString
  replyToMessageId : Option JsString
  «from» : EmailIdentity
  «to» : Option (List EmailIdentity)
  replyTo : EmailIdentity
  tags : Option (List EmailTag)
  attachments : Option (List AttachmentRef)
deriving DecidableEq

structure DirectEmailV2Value where
  «from» : EmailIdentity
  «to» : List EmailIdentity
  subject : JsString
  text : Option JsString
  html : Option JsString
  tags : Option (List EmailTag)
  attachments : Option (List AttachmentRef)
deriving DecidableEq

section
variable (toLowerCase : JsString → JsString) (config : Config)

/-- The recipients of a body, when it names any. -/
def normalizeOptionalIdentities (value : Option Json) (fieldName : JsString) :
    Except JsString (Option (List EmailIdentity)) :=
  match value with
  | none => .ok none
  | some value => (normalizeEmailIdentities toLowerCase (some value) fieldName).map some

def validateCreateV2Body (value : Option Json) : Except JsString CreateV2Value := do
  let base ← validateCreateBody value
  let message := field "message" value
  check (isRecord message) (js "message is required")
  check (field "replyToName" message).isNone (js "message.replyToName is not supported in API v2")
  let «from» ← normalizeEmailIdentity toLowerCase (field "from" message) (js "message.from") false
  let replyTo ← normalizeEmailIdentity toLowerCase (field "replyTo" message)
      (js "message.replyTo") true
  let tags ← normalizeTags (field "tags" message) (js "message.tags")
  let attachments ← normalizeAttachmentRefs toLowerCase config (field "attachments" message)
    (js "message.attachments")
  let «to» ← normalizeOptionalIdentities toLowerCase (field "to" message) (js "message.to")
  pure ⟨base.topic, base.participant, base.subject,
    ⟨base.message.text, base.message.html, «from», «to», replyTo, tags, attachments⟩⟩

def validateMessageV2Body (value : Option Json) : Except JsString MessageV2Value := do
  let base ← validateMessageBody value
  check (field "replyToName" value).isNone (js "replyToName is not supported in API v2")
  let «from» ← normalizeEmailIdentity toLowerCase (field "from" value) (js "from") false
  let replyTo ← normalizeEmailIdentity toLowerCase (field "replyTo" value) (js "replyTo") true
  let tags ← normalizeTags (field "tags" value) (js "tags")
  let attachments ← normalizeAttachmentRefs toLowerCase config (field "attachments" value)
      (js "attachments")
  let «to» ← normalizeOptionalIdentities toLowerCase (field "to" value) (js "to")
  pure ⟨base.text, base.html, base.replyToMessageId, «from», «to», replyTo, tags, attachments⟩

/-- A text that may be absent and is otherwise a nonempty string. -/
def providedText (value : Option Json) : Option (Option JsString) :=
  match value with
  | none => some none
  | some (.string s) => if s.isEmpty then none else some (some s)
  | _ => none

def validateDirectEmailV2Body (value : Option Json) : Except JsString DirectEmailV2Value := do
  check (isRecord value) (js "Request body must be an object")
  check (field "replyTo" value).isNone (js "replyTo is not supported for direct email")
  let «from» ← normalizeEmailIdentity toLowerCase (field "from" value) (js "from") false
  let «to» ← normalizeEmailIdentities toLowerCase (field "to" value) (js "to")
  let tags ← normalizeTags (field "tags" value) (js "tags")
  let attachments ← normalizeAttachmentRefs toLowerCase config (field "attachments" value)
      (js "attachments")
  let subject ← orError (requiredText (field "subject" value) maxSubjectLength)
    (js "subject must be a nonempty header-safe string of at most 255 characters")
  let text ← orError (providedText (field "text" value))
      (js "text must be a nonempty string when provided")
  let html ← orError (providedText (field "html" value))
      (js "html must be a nonempty string when provided")
  check (text.isSome || html.isSome) (js "text or html is required")
  check (bodyFits text html) (js "text and html are limited to 1 MiB each")
  pure ⟨«from», «to», subject, text, html, tags, attachments⟩

end

/-! ### Normalised values as JSON -/

/-- A property that is left out when it is `undefined`. -/
def optionalMember (name : String) (value : Option Json) : List (JsString × Json) :=
  value.toList.map fun v => (js name, v)

def nameJson (name : Option JsString) : Json :=
  match name with
  | some s => .string s
  | none => .null

def EmailIdentity.toJson (identity : EmailIdentity) : Json :=
  .object [(js "address", .string identity.address), (js "name", nameJson identity.name)]

def EmailTag.toJson (tag : EmailTag) : Json :=
  .object [(js "name", .string tag.name), (js "value", .string tag.value)]

def AttachmentRef.toJson (ref : AttachmentRef) : Json :=
  .object ((js "id", .string ref.id) :: optionalMember "contentId" (ref.contentId.map .string))

def TopicIdentity.toJson (topic : TopicIdentity) : Json :=
  .object [(js "type", .string topic.type), (js "externalId", .string topic.externalId),
    (js "title", .string topic.title)]

def ParticipantInput.toJson (participant : ParticipantInput) : Json :=
  .object [(js "email", .string participant.email), (js "name", nameJson participant.name)]

def identitiesJson (identities : List EmailIdentity) : Json :=
  .array (identities.map EmailIdentity.toJson)

def tagsJson (tags : List EmailTag) : Json := .array (tags.map EmailTag.toJson)

def attachmentsJson (refs : List AttachmentRef) : Json := .array (refs.map AttachmentRef.toJson)

def OpeningMessageValue.toJson (message : OpeningMessageValue) : Json :=
  .object (optionalMember "text" (message.text.map .string) ++
    optionalMember "html" (message.html.map .string) ++
    (js "from", message.from.toJson) :: (optionalMember "to" (message.to.map identitiesJson) ++
    (js "replyTo", message.replyTo.toJson) :: (optionalMember "tags" (message.tags.map tagsJson) ++
    optionalMember "attachments" (message.attachments.map attachmentsJson))))

def CreateV2Value.toJson (value : CreateV2Value) : Json :=
  .object ((js "topic", value.topic.toJson) :: (js "participant", value.participant.toJson) ::
    (optionalMember "subject" (value.subject.map .string) ++
      [(js "message", value.message.toJson)]))

def MessageV2Value.toJson (value : MessageV2Value) : Json :=
  .object (optionalMember "text" (value.text.map .string) ++
    optionalMember "html" (value.html.map .string) ++
    optionalMember "replyToMessageId" (value.replyToMessageId.map .string) ++
    (js "from", value.from.toJson) :: (optionalMember "to" (value.to.map identitiesJson) ++
    (js "replyTo", value.replyTo.toJson) :: (optionalMember "tags" (value.tags.map tagsJson) ++
    optionalMember "attachments" (value.attachments.map attachmentsJson))))

def DirectEmailV2Value.toJson (value : DirectEmailV2Value) : Json :=
  .object ((js "from", value.from.toJson) :: (js "to", identitiesJson value.to) ::
    (js "subject", .string value.subject) :: (optionalMember "text" (value.text.map .string) ++
    optionalMember "html" (value.html.map .string) ++
    optionalMember "tags" (value.tags.map tagsJson) ++
    optionalMember "attachments" (value.attachments.map attachmentsJson)))

/-- What a handler has before it looks for an earlier request: the operation, which names the
delivery mode, the conversation of a reply, and the normalised value. -/
inductive ValidatedRequest where
  | opening (queued : Bool) (value : CreateV2Value)
  | reply (queued : Bool) (conversationId : JsString) (value : MessageV2Value)
  | direct (queued : Bool) (value : DirectEmailV2Value)
deriving DecidableEq

namespace ValidatedRequest

def operation : ValidatedRequest → JsString
  | opening queued _ => if queued then js "outbox-opening-v2" else js "opening-v2"
  | reply queued _ _ => if queued then js "outbox-reply-v2" else js "reply-v2"
  | direct queued _ => if queued then js "outbox-direct-email-v2" else js "direct-email-v2"

def toJson (r : ValidatedRequest) : Json :=
  match r with
  | opening _ value => .object [(js "operation", .string r.operation), (js "request", value.toJson)]
  | reply _ conversationId value =>
      .object [(js "operation", .string r.operation), (js "conversationId", .string conversationId),
        (js "request", value.toJson)]
  | direct _ value => .object [(js "operation", .string r.operation), (js "request", value.toJson)]

/-- The text that `hashSendRequest` digests. -/
def preimage (r : ValidatedRequest) : JsString := r.toJson.stringify

end ValidatedRequest

end ResendConversation
