import ResendConversation.Foundation.IdempotentService
import ResendConversation.Outbox

/-! # The email provider

The provider as the service relies on it: an idempotent service with a memory of one day.  A
call is placed by a worker, reaches the provider at some later time or never, and is answered
there; the worker observes the answer, or a timeout or network error of its own.  Only an API
error below 500 tells the worker that its call was not accepted. -/

namespace ResendConversation

open Foundation

variable {Digest : Type}

/-- The idempotency keys of the three send paths. -/
inductive ProviderKey where
  | conversation (messageId : Uuid)
  | email (messageId : Uuid)
  | attachmentOutbox (messageId : Uuid)
  | conversationOutbox (batchId : Uuid)
deriving DecidableEq, Repr

/-- A call as its worker placed it.  `messageIds` are the messages whose payloads it
carries, in order.  `windowStart` is the time from which its worker measures the idempotency
window and `checkedAt` the claim or window check that preceded the call. -/
structure ProviderCall where
  id : Uuid
  key : ProviderKey
  messageIds : List Uuid
  payload : List SendEmailInput
  windowStart : Time
  checkedAt : Time
  /-- The provider's answer, once the call has reached it. -/
  answer : Option Observation := none
  /-- What the worker saw of the call. -/
  observed : Option Observation := none
deriving DecidableEq

/-- The emails of an accepted call. -/
structure AcceptedEmails where
  callId : Uuid
  messageIds : List Uuid
  resendEmailIds : List JsString
deriving DecidableEq

structure Provider where
  calls : Table ProviderCall.id
  log : List (Acceptance ProviderKey AcceptedEmails)

def Provider.initial : Provider := ⟨.empty, []⟩

/-- How long the provider remembers an idempotency key. -/
def providerMemoryMs : Time := 24 * 60 * 60 * 1000

/-- An answer that tells the worker that its call was not accepted. -/
def isDefiniteRejection : Observation → Bool
  | .threw (.api error) => error.status < 500
  | _ => false

namespace Provider

def place (p : Provider) (call : ProviderCall) : Provider := { p with calls := p.calls.set call }

/-- The log after a call was accepted under the given identifiers, or was not. -/
def record (p : Provider) (now : Time) (call : ProviderCall) :
    Option (List JsString) → List (Acceptance ProviderKey AcceptedEmails)
  | some ids => p.log ++ [⟨call.key, now, ⟨call.id, call.messageIds, ids⟩⟩]
  | none => p.log

/-- Identifiers are only answered as they were recorded for the key. -/
def truthful (log : List (Acceptance ProviderKey AcceptedEmails)) (key : ProviderKey) :
    Observation → Bool
  | .sent ids => log.any fun a => a.key == key && a.content.resendEmailIds == ids
  | .threw _ => true

/-- A placed call reaches the provider, which accepts its emails under the given identifiers
or does not.  A call is accepted only while no acceptance of its key is remembered, and an
accepted call is never answered by a definite rejection. -/
def reach (p : Provider) (now : Time) (callId : Uuid) (accepted : Option (List JsString))
    (answer : Observation) : Option Provider :=
  match p.calls.get? callId with
  | none => none
  | some call =>
      let log := p.record now call accepted
      if call.answer = none ∧ truthful log call.key answer ∧
          (accepted.isSome → ¬Service.Remembers providerMemoryMs p.log call.key now ∧
            isDefiniteRejection answer = false) then
        some { calls := p.calls.set { call with answer := some answer }, log }
      else none

/-- A worker's observation of its call: the provider's answer, or an error of its own while
waiting for one. -/
def observation (p : Provider) (callId : Uuid) (lost : Option (JsString × JsString)) :
    Option Observation :=
  match lost with
  | some (name, message) => some (.threw (.other name message))
  | none => (p.calls.get? callId).bind ProviderCall.answer

def observe (p : Provider) (callId : Uuid) (observation : Observation) : Provider :=
  { p with calls := p.calls.update (fun c => c.id == callId) fun c =>
      { c with observed := some observation } }

/-- The number of emails that the provider accepted for a message. -/
def emailsFor (p : Provider) (messageId : Uuid) : ℕ :=
  (p.log.map fun a => a.content.messageIds.count messageId).sum

end Provider

end ResendConversation
