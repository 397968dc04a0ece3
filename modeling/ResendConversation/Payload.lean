import ResendConversation.Requests

/-! # Provider payloads

`buildSendEmailInput` of `lib/conversation-service.ts`: the body of a provider call is
computed from the stored message row, never stored. -/

namespace ResendConversation

open JsString

structure SendEmailAttachmentInput where
  filename : JsString
  content : List UInt8
  contentType : JsString
  contentId : Option JsString
deriving DecidableEq

structure ThreadingHeaders where
  inReplyTo : JsString
  references : JsString
deriving DecidableEq

structure SendEmailInput where
  «from» : JsString
  «to» : List JsString
  replyTo : Option JsString
  subject : JsString
  text : Option JsString
  html : Option JsString
  headers : Option ThreadingHeaders
  tags : List EmailTag
  attachments : List SendEmailAttachmentInput
deriving DecidableEq

def isAtomCharacter (c : UInt16) : Bool :=
  isUpperLetter c || isLowerLetter c || isDigit c ||
    (js "!#$%&'*+-/=?^_\x60\x7b|\x7d~").contains c

/-- `DISPLAY_NAME_PHRASE_PATTERN`: atoms separated by single spaces. -/
def isDisplayNamePhrase (name : JsString) : Bool :=
  (split 32 name).all fun atom => !atom.isEmpty && atom.all isAtomCharacter

def formatAddress (address : JsString) (name : Option JsString) : JsString :=
  match name.bind orNull with
  | none => address
  | some name =>
      if isDisplayNamePhrase name then name ++ js " <" ++ address ++ js ">"
      else
        let escaped := replaceAll 34 (js "\\\"") (replaceAll 92 (js "\\\\") name)
        js "\"" ++ escaped ++ js "\" <" ++ address ++ js ">"

variable {Digest : Type}

/-- The recipient array when it has an element, else the scalar recipient columns. -/
def getRecipients (message : EmailMessage Digest) : List EmailIdentity :=
  match message.toRecipients with
  | some (recipient :: recipients) => recipient :: recipients
  | _ => [⟨message.toAddress, message.toName⟩]

def getTags (message : EmailMessage Digest) : List EmailTag := message.tags.getD []

def buildSendEmailInput (message : EmailMessage Digest)
    (attachments : List SendEmailAttachmentInput) : SendEmailInput where
  «from» := formatAddress message.fromAddress message.fromName
  «to» := (getRecipients message).map fun r => formatAddress r.address r.name
  replyTo := message.replyToAddress.map fun a => formatAddress a message.replyToName
  subject := message.subject
  text := message.textBody
  html := message.htmlBody
  headers := (message.inReplyToInternetMessageId.bind orNull).map fun id =>
    ⟨id, join (js " ") message.referenceInternetMessageIds⟩
  tags := getTags message
  attachments := attachments

end ResendConversation
