import ResendConversation.Schema

/-! # Send requests

The normalised values of the three send operations (`lib/send-validation.ts`), and the
preimage that `hashSendRequest` fingerprints: the operation, which names the delivery mode,
the conversation of a reply, and the normalised value. -/

namespace ResendConversation

structure EmailAttachmentRefInput where
  id : Uuid
  contentId : Option JsString := none
deriving DecidableEq

/-- An identifier in a request body: the row it names and the spelling of the client, which
the fingerprint covers. -/
structure RequestedId where
  id : Uuid
  spelling : JsString
deriving DecidableEq

structure TopicIdentity where
  type : JsString
  externalId : JsString
  title : JsString
deriving DecidableEq

structure ParticipantInput where
  email : JsString
  name : Option JsString
deriving DecidableEq

structure OpeningMessageInput where
  text : Option JsString := none
  html : Option JsString := none
  «from» : EmailIdentity
  «to» : Option (List EmailIdentity) := none
  replyTo : EmailIdentity
  tags : Option (List EmailTag) := none
  attachments : Option (List EmailAttachmentRefInput) := none
deriving DecidableEq

structure CreateConversationV2Input where
  topic : TopicIdentity
  participant : ParticipantInput
  subject : Option JsString := none
  message : OpeningMessageInput
deriving DecidableEq

structure MessageV2Input where
  text : Option JsString := none
  html : Option JsString := none
  replyToMessageId : Option RequestedId := none
  «from» : EmailIdentity
  «to» : Option (List EmailIdentity) := none
  replyTo : EmailIdentity
  tags : Option (List EmailTag) := none
  attachments : Option (List EmailAttachmentRefInput) := none
deriving DecidableEq

structure DirectEmailV2Input where
  «from» : EmailIdentity
  «to» : List EmailIdentity
  subject : JsString
  text : Option JsString := none
  html : Option JsString := none
  tags : Option (List EmailTag) := none
  attachments : Option (List EmailAttachmentRefInput) := none
deriving DecidableEq

/-- The value that `hashSendRequest` is applied to. -/
inductive SendRequest where
  | opening (queued : Bool) (value : CreateConversationV2Input)
  | reply (queued : Bool) (conversationId : Uuid) (value : MessageV2Input)
  | direct (queued : Bool) (value : DirectEmailV2Input)
deriving DecidableEq

namespace SendRequest

def operation : SendRequest → JsString
  | opening queued _ => if queued then js "outbox-opening-v2" else js "opening-v2"
  | reply queued _ _ => if queued then js "outbox-reply-v2" else js "reply-v2"
  | direct queued _ => if queued then js "outbox-direct-email-v2" else js "direct-email-v2"

/-- Whether the request asks for queued delivery. -/
def queued : SendRequest → Bool
  | opening queued _ | reply queued _ _ | direct queued _ => queued

/-- The kind of the message that the request stores. -/
def kind : SendRequest → EmailMessageKind
  | opening _ _ | reply _ _ _ => .conversation
  | direct _ _ => .direct

def attachments : SendRequest → Option (List EmailAttachmentRefInput)
  | opening _ value => value.message.attachments
  | reply _ _ value => value.attachments
  | direct _ value => value.attachments

/-- `Boolean(attachments?.length)`. -/
def hasAttachments (request : SendRequest) : Bool :=
  request.attachments.any fun refs => !refs.isEmpty

def isOpening : SendRequest → Bool
  | opening _ _ => true
  | _ => false

def isReply : SendRequest → Bool
  | reply _ _ _ => true
  | _ => false

end SendRequest

/-- What the service takes from outside its source: the digest of a request (SHA-256 of its
JSON text) and the letter-case mapping of the language. -/
structure Runtime (Digest : Type) where
  hashSendRequest : SendRequest → Digest
  toLowerCase : JsString → JsString

/-- The environment variables that the modelled functions read. -/
structure Config where
  attachmentsEnabled : Bool
  maxBytes : ℕ
  maxTotalBytes : ℕ
  maxCount : ℕ
  keyPrefix : JsString
  conversationEventsEnabled : Bool
  resendApiKey : Bool
  resendReplyTo : Option JsString
deriving DecidableEq

end ResendConversation
