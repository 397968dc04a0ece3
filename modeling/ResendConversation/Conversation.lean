import ResendConversation.Requests

/-! # Conversation rows

The statements on `email_conversations`, its automatic state transitions
(`lib/email/conversation-state.ts`), the transactional event log
(`lib/conversation-events.ts`) and the allowlist reads
(`lib/database/email-address-allowlist.ts`). -/

namespace ResendConversation

open Foundation

variable {Digest : Type}

/-- The constraints of `email_conversations` on a row to be written. -/
def checkConversation (c : EmailConversation) : Transaction Digest Unit := do
  let db ← get
  let others := db.conversations.rows.filter fun d => d.id != c.id
  Tx.ensure (!others.any fun d => d.routingToken == c.routingToken) .uniqueViolation
  Tx.ensure (!others.any fun d => d.topicType.isSome && d.externalTopicId.isSome &&
    d.topicType == c.topicType && d.externalTopicId == c.externalTopicId) .uniqueViolation
  Tx.ensure (!c.replyToRequiresAllowlist || c.replyToBaseAddress.isSome) .checkViolation

/-- The texts in the columns of a row. -/
def EmailConversation.texts (c : EmailConversation) : List JsString :=
  [c.routingToken, c.title, c.subject, c.participantAddress] ++ c.topicType.toList ++
    c.externalTopicId.toList ++ c.participantName.toList ++ c.replyToBaseAddress.toList

/-- `emailConversation.create`. -/
def createConversation (c : EmailConversation) : Transaction Digest Unit := do
  checkTexts c.texts
  checkConversation c
  insertRow Database.conversations (fun db t => { db with conversations := t }) c

/-- `emailConversation.findUniqueOrThrow`. -/
def findConversationOrThrow (id : Uuid) : Transaction Digest EmailConversation := do
  let db ← get
  Tx.orThrow (db.conversations.get? id) .notFound

/-- `emailConversation.update` of one row by its primary key. -/
def updateConversation (id : Uuid) (f : EmailConversation → EmailConversation)
    (keep : ∀ c, (f c).id = c.id := by exact fun _ => Eq.trans rfl rfl) :
    Transaction Digest EmailConversation := do
  let c ← findConversationOrThrow id
  checkConversation (f c)
  modify fun db => { db with conversations := db.conversations.update (fun c => c.id == id) f keep }
  pure (f c)

/-- `UPDATE email_conversations … WHERE p`, for columns without a constraint of their own. -/
def updateConversations (p : EmailConversation → Bool) (f : EmailConversation → EmailConversation)
    (keep : ∀ c, (f c).id = c.id := by exact fun _ => Eq.trans rfl rfl) : Transaction Digest ℕ :=
  modifyGet fun db =>
    (db.conversations.count p, { db with conversations := db.conversations.update p f keep })

/-! ### Events -/

structure ConversationEventInput where
  conversationId : Uuid
  type : ConversationEventType
  occurredAt : Time
  actor : ConversationEventActor
  cause : JsString
  messageId : Option Uuid := none
  state : Option (Option ConversationState × ConversationState) := none
  deliveryState : Option EmailDeliveryState := none
  mergedIntoConversationId : Option Uuid := none
  attachmentCount : Option ℕ := none

/-- Appends an event under the next sequence number of its conversation, with a delivery row
for the sink; nothing is written while no sink is enabled. -/
def appendConversationEvent (config : Config) (input : ConversationEventInput) :
    Transaction Digest (Option Uuid) :=
  if config.conversationEventsEnabled then do
    let conversation ← updateConversation input.conversationId fun c =>
      { c with eventSequence := c.eventSequence + 1 }
    let db ← get
    Tx.ensure (!db.conversationEvents.rows.any fun e => e.conversationId == conversation.id &&
      e.sequence == conversation.eventSequence) .uniqueViolation
    let id ← freshId
    insertRow Database.conversationEvents (fun db t => { db with conversationEvents := t })
      { id := id
        conversationId := conversation.id
        sequence := conversation.eventSequence
        type := input.type
        occurredAt := input.occurredAt
        topic := conversation.topicType.bind fun t =>
          conversation.externalTopicId.map fun e => (t, e)
        actor := input.actor
        cause := input.cause
        messageId := input.messageId
        state := input.state
        deliveryState := input.deliveryState
        mergedIntoConversationId := input.mergedIntoConversationId
        attachmentCount := input.attachmentCount }
    insertRow Database.conversationEventDeliveries
      (fun db t => { db with conversationEventDeliveries := t }) ⟨id⟩
    pure (some id)
  else pure none

/-! ### State -/

/-- Automatic transitions move neither a terminated conversation nor one whose state already
matches. -/
def applyAutomaticState (conversationId : Uuid) (state : ConversationState) (changedAt : Time) :
    Transaction Digest Bool := do
  let changed ← updateConversations
    (fun c => c.id == conversationId && c.state != state && c.state != .terminated)
    fun c => { c with state := state, stateChangedAt := changedAt }
  pure (0 < changed)

def markConversationAwaitingUs (conversationId : Uuid) (changedAt : Time) :
    Transaction Digest Bool :=
  applyAutomaticState conversationId .awaitingUs changedAt

def markConversationAwaitingParticipant (conversationId : Uuid) (changedAt : Time) :
    Transaction Digest Bool :=
  applyAutomaticState conversationId .awaitingParticipant changedAt

/-- A hard delivery failure wins over every other state. -/
def markConversationTerminated (conversationId : Uuid) (changedAt : Time) :
    Transaction Digest Bool := do
  let changed ← updateConversations
    (fun c => c.id == conversationId && c.state != .terminated)
    fun c => { c with state := .terminated, stateChangedAt := changedAt }
  pure (0 < changed)

def mergePrecedence : List ConversationState :=
  [.terminated, .awaitingUs, .awaitingParticipant, .concluded]

/-- The state of the survivor of a merge: the first of `mergePrecedence` that a row holds,
with the earliest change among the rows that hold it. -/
def mergeConversationState (rows : List EmailConversation) : Option (ConversationState × Time) :=
  match mergePrecedence.find? fun candidate => rows.any fun row => row.state == candidate with
  | none => none
  | some winner =>
      let changedAt := (rows.filter fun row => row.state == winner).foldl
        (fun (earliest : Option Time) row =>
          match earliest with
          | some t => if t ≤ row.stateChangedAt then some t else some row.stateChangedAt
          | none => some row.stateChangedAt) none
      changedAt.map fun t => (winner, t)

/-! ### Allowlist -/

def isEmailAddressAllowed (db : Database Digest) (address : JsString) (role : EmailAddressRole) :
    Bool :=
  db.allowlist.rows.contains ⟨address, role⟩

def lockAllowedEmailIdentities (fromAddress replyToAddress : JsString) :
    Transaction Digest Bool := do
  let db ← get
  pure (isEmailAddressAllowed db fromAddress .from && isEmailAddressAllowed db
    replyToAddress .replyTo)

def lockAllowedEmailIdentity (address : JsString) (role : EmailAddressRole) :
    Transaction Digest Bool := do
  let db ← get
  pure (isEmailAddressAllowed db address role)

end ResendConversation
