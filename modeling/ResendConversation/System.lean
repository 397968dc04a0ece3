import ResendConversation.DrainSteps
import ResendConversation.FileSteps
import ResendConversation.Foundation.Transition

/-! # The system

The handling of inbound webhooks and the transition function of the whole system: every
process, the provider, the operator and the clock take their steps in any order. -/

namespace ResendConversation

open Foundation

variable {Digest : Type} [DecidableEq Digest]

/-! ### Inbound webhooks -/

/-- A row of the webhook ledger; a delivery with a known `svix-id` is skipped. -/
def createWebhookEvent (now : Time) (svixId eventType emailId : JsString) (eventCreatedAt : Time)
    (deliveryDetail : Option JsString) : Transaction Digest Unit := do
  let db ← get
  if (db.webhookEvents.get? svixId).isSome then pure ()
  else
    let id ← freshId
    insertRow Database.webhookEvents (fun db t => { db with webhookEvents := t })
      { id, svixId, eventType, webhookReceivedAt := now, eventCreatedAt, emailId, deliveryDetail }

/-- The transaction of a delivery webhook; a known one projects again. -/
def recordDeliveryWebhook (config : Config) (now : Time) (svixId eventType emailId : JsString)
    (eventCreatedAt : Time) (deliveryDetail : Option JsString) : Transaction Digest Unit := do
  let db ← get
  match db.webhookEvents.get? svixId with
  | some existing => projectOutboundDeliveryStateForResendEmail config existing.emailId
  | none => do
      createWebhookEvent now svixId eventType emailId eventCreatedAt deliveryDetail
      projectOutboundDeliveryStateForResendEmail config emailId

namespace ReceiveHandler

def goto (h : ReceiveHandler Digest) (phase : ReceivePhase Digest) : Proc Digest :=
  .receive { h with phase }

/-- The start of `hydrateReferencedOutboundMessages`. -/
def beginHydration (rt : Runtime Digest) (s : System Digest) (h : ReceiveHandler Digest)
    (participantAddress : JsString) (ids : List JsString) (preferred : Option JsString)
    (email : Option ResendEmail) : Proc Digest :=
  let retryCutoff := s.now - outboundHydrationRetryWindowMs
  match hydrationCandidates rt s.db participantAddress ids preferred with
  | none => h.goto .failed
  | some candidates =>
      h.goto (.hydrate
        { pending := candidates.take maxOutboundHydrationCandidates
          ancestry := (unique ids).filter fun id => !id.isEmpty
          retryCutoff
          incomplete := candidates[maxOutboundHydrationCandidates]?.any fun m =>
            retryCutoff ≤ m.emailCreatedAt } email)

/-- The configuration checks of the webhook and its search for the message. -/
def inspect (rt : Runtime Digest) (s : System Digest) (h : ReceiveHandler Digest) : Proc Digest :=
  if s.config.resendReplyTo.any (isValidReplyToBaseAddress rt.toLowerCase) &&
    s.config.resendApiKey then
    match s.db.messages.rows.find? fun m => m.resendEmailId == some h.event.emailId with
    | none => h.goto .fetch
    | some existing =>
        h.beginHydration rt s existing.fromAddress
          (existing.referenceInternetMessageIds ++ existing.inReplyToInternetMessageId.toList)
          (existing.inReplyToInternetMessageId.or
            existing.referenceInternetMessageIds.getLast?) none
  else h.goto .failed

/-- The retrieval of the email, and the hydration of the messages it refers to. -/
def fetch (rt : Runtime Digest) (s : System Digest) (h : ReceiveHandler Digest)
    (c : Choice Digest) :
    Proc Digest :=
  match c.received with
  | none => h.goto .failed
  | some email =>
      let inReplyTo := extractMessageIds (getHeader rt.toLowerCase email.headers (js "in-reply-to"))
      let references := extractMessageIds (getHeader rt.toLowerCase email.headers (js "references"))
      let participant := parseAddress ((orNull h.event.from).getD email.from)
      h.beginHydration rt s participant.address (references ++ inReplyTo)
        (inReplyTo.getLast?.or references.getLast?) (some email)

/-- One candidate of the hydration, or its end. -/
def hydrate (rt : Runtime Digest) (s : System Digest) (pid : ℕ) (h : ReceiveHandler Digest)
    (hydration : Hydration Digest) (email : Option ResendEmail) (c : Choice Digest) :
    System Digest :=
  match hydration.pending with
  | [] =>
      if !hydration.matched && hydration.incomplete then s.become pid (h.goto .failed)
      else
        match email with
        | none => s.become pid (h.goto (.completed none))
        | some email => s.become pid (h.goto (.project email))
  | m :: pending =>
      match c.retrieved with
      | none =>
          s.become pid (h.goto (.hydrate { hydration with
            pending
            incomplete := hydration.incomplete || hydration.retryCutoff ≤ m.emailCreatedAt } email))
      | some (internetMessageId, createdAt) =>
          match s.transact (recordOutboundInternetMessageId rt s.config c.scan s.now m.id
              internetMessageId createdAt) with
          | (.ok _, s) =>
              s.become pid (h.goto (.hydrate { hydration with
                pending
                matched := hydration.matched || hydration.ancestry.contains
                  internetMessageId } email))
          | (.error _, s) => s.become pid (h.goto .failed)

/-- The transaction of `projectInboundEmail`; `fails` is a conflict that outlasts its
retries. -/
def project (rt : Runtime Digest) (s : System Digest) (pid : ℕ) (h : ReceiveHandler Digest)
    (email : ResendEmail) (c : Choice Digest) : System Digest :=
  if c.fails then s.become pid (h.goto .failed)
  else
    match s.transact (projectInboundEmail rt s.config c.scan s.now h.event email
        (s.config.resendReplyTo.getD [])) with
    | (.ok m, s) => s.become pid (h.goto (.completed (some m)))
    | (.error .uniqueViolation, s) => s.become pid (h.goto (.fallback email))
    | (.error _, s) => s.become pid (h.goto .failed)

def step (rt : Runtime Digest) (s : System Digest) (pid : ℕ) (h : ReceiveHandler Digest)
    (c : Choice Digest) : Option (System Digest) :=
  match h.phase with
  | .record =>
      let (_, s) :=
        s.transact (createWebhookEvent s.now h.svixId (js "email.received") h.event.emailId
        h.event.createdAt none)
      some (s.become pid (h.goto .inspect))
  | .inspect => some (s.become pid (h.inspect rt s))
  | .fetch => some (s.become pid (h.fetch rt s c))
  | .hydrate hydration email => some (h.hydrate rt s pid hydration email c)
  | .project email => some (h.project rt s pid email c)
  | .fallback email =>
      match findProjected rt s.db c.scan h.event email with
      | some m => some (s.become pid (h.goto (.completed (some m))))
      | none => some (s.become pid (h.goto .failed))
  | .completed _ => none
  | .failed => none

end ReceiveHandler

/-! ### The transition function -/

inductive OperatorRequest where
  | assignTopic (conversationId : Uuid) (topic : JsString × JsString) (title : JsString)
  | deleteConversation (conversationId : Uuid)
  | setConversationState (conversationId : Uuid) (state : ConversationState)
  | grantIdentity (entry : EmailAddressAllowlistEntry)
  | revokeIdentity (entry : EmailAddressAllowlistEntry)

/-- The transaction of an operator request. -/
def OperatorRequest.transaction (config : Config) (now : Time) :
    OperatorRequest → Transaction Digest Bool
  | .assignTopic id topic title => ResendConversation.assignTopic config now id topic title
  | .deleteConversation id => ResendConversation.deleteConversation config now id
  | .setConversationState id state => ResendConversation.setConversationState config now id state
  | .grantIdentity entry => do
      ResendConversation.grantIdentity entry
      pure true
  | .revokeIdentity entry => do
      ResendConversation.revokeIdentity entry
      pure true

/-- What a new process is started for. -/
inductive Job where
  | send (request : SendRequest) (idempotencyKey : JsString)
  | batchDrain (limit : ℕ)
  | entryDrain (limit : ℕ)
  | receive (svixId : JsString) (event : EmailEventData)
  | ingest
  | reaper
  | upload (filename contentType : Option JsString)

inductive Action (Digest : Type) where
  | tick (ms : ℕ)
  /-- A restart of the service with another environment. -/
  | reconfigure (config : Config)
  | start (pid : ℕ) (job : Job) (choice : Choice Digest)
  | run (pid : ℕ) (choice : Choice Digest)
  | crash (pid : ℕ)
  | reach (callId : Uuid) (accepted : Option (List JsString)) (answer : Observation)
  | deliveryWebhook (svixId eventType emailId : JsString) (eventCreatedAt : Time)
      (deliveryDetail : Option JsString)
  | operator (request : OperatorRequest)

def startJob (rt : Runtime Digest) (s : System Digest) (pid : ℕ) (c : Choice Digest) :
    Job → Option (System Digest)
  | .send request idempotencyKey =>
      if idempotencyKey ≠ [] ∧ idempotencyKey.length ≤ 256 then
        some (s.become pid (.send { request, idempotencyKey, phase := .lookup }))
      else none
  | .batchDrain limit =>
      if 1 ≤ limit ∧ limit ≤ 100 then some (BatchWorker.start s pid limit c) else none
  | .entryDrain limit =>
      if 1 ≤ limit ∧ limit ≤ 100 then some (s.become pid (.entryDrain (.idle limit {}))) else none
  | .receive svixId event => some (s.become pid (.receive { svixId, event, phase := .record }))
  | .ingest => if s.config.attachmentsEnabled then some (IngestWorker.start s pid c) else none
  | .reaper => if s.config.attachmentsEnabled then some (ReaperPhase.start s pid c) else none
  | .upload filename contentType => UploadHandler.start rt s pid filename contentType c

/-- One step of a process. -/
def runProc (rt : Runtime Digest) (s : System Digest) (pid : ℕ) (c : Choice Digest) :
    Proc Digest → Option (System Digest)
  | .send h => h.step rt s pid c
  | .batchDrain w => w.step s pid c
  | .entryDrain w => w.step s pid c
  | .receive h => h.step rt s pid c
  | .ingest w => some (w.step s pid c)
  | .reaper phase => some (phase.step s pid c)
  | .upload h => some (h.step s pid c)

/-- The transition function; `none` means that the action is not possible. -/
def step (rt : Runtime Digest) (s : System Digest) : Action Digest → Option (System Digest)
  | .tick ms => some { s with now := s.now + ms }
  | .reconfigure config => some { s with config }
  | .start pid job c => if s.procs.get? pid = none then startJob rt s pid c job else none
  | .run pid c => (s.procs.get? pid).bind fun p => runProc rt s pid c p.2
  | .crash pid => some (s.finish pid)
  | .reach callId accepted answer =>
      (s.provider.reach s.now callId accepted answer).map fun provider => { s with provider }
  | .deliveryWebhook svixId eventType emailId eventCreatedAt deliveryDetail =>
      some (s.transact (recordDeliveryWebhook s.config s.now svixId eventType emailId eventCreatedAt
        deliveryDetail)).2
  | .operator request => some (s.transact (request.transaction s.config s.now)).2

/-- The states that the system can reach from an empty database. -/
def Reachable (rt : Runtime Digest) (s : System Digest) : Prop :=
  ∃ config now, Run (step rt) Always (.initial config now) s

/-! ### A concrete service -/

/-- A runtime over ASCII text whose digests are the requests themselves. -/
def Runtime.reference : Runtime SendRequest where
  hashSendRequest := id
  toLowerCase := List.map fun c => if JsString.isUpperLetter c then c + 32 else c

theorem Runtime.reference_injective : Function.Injective Runtime.reference.hashSendRequest :=
  Function.injective_id

def Config.reference : Config where
  attachmentsEnabled := true
  maxBytes := 1000
  maxTotalBytes := 1000
  maxCount := 10
  keyPrefix := js "attachments"
  conversationEventsEnabled := false
  resendApiKey := true
  resendReplyTo := some (js "r@s.co")

/-- The service of the concrete runs, at its start. -/
def System.reference : System SendRequest := .initial .reference 0

theorem Reachable.of_run {s : System SendRequest}
    {ok : System SendRequest → Action SendRequest → Prop}
    (h : Run (step .reference) ok .reference s) : Reachable .reference s :=
  ⟨.reference, 0, h.mono fun _ _ _ => trivial⟩

namespace Reference

def sender : EmailIdentity := ⟨js "a@s.co", none⟩

def replyTo : EmailIdentity := ⟨js "r@s.co", none⟩

/-- The grants that the requests below need. -/
def grants : List (Action SendRequest) :=
  [.operator (.grantIdentity ⟨sender.address, .from⟩),
    .operator (.grantIdentity ⟨replyTo.address, .replyTo⟩)]

def direct (queued : Bool) (subject : JsString) : SendRequest :=
  .direct queued { «from» := sender, «to» := [⟨js "p@q.co", none⟩], subject }

def opening (queued : Bool) (topic : JsString) : SendRequest :=
  .opening queued
    { topic := ⟨js "t", topic, js "title"⟩
      participant := ⟨js "p@q.co", none⟩
      message := { «from» := sender, replyTo } }

/-- A request up to the transaction that stores its message. -/
def submit (pid : ℕ) (request : SendRequest) (key : JsString) : List (Action SendRequest) :=
  .start pid (.send request key) {} :: List.replicate 3 (.run pid {})

end Reference

end ResendConversation
