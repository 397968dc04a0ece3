import ResendConversation.Conversation

/-! # Operator requests

The conversation routes that change state without sending: topic assignment (`PATCH`),
deletion (`DELETE`) and the manual state override, and the administration of the
allowlist. -/

namespace ResendConversation

open Foundation

variable {Digest : Type}

/-- `PATCH /conversations/v2/:id`: assigns an unassigned conversation to a topic. -/
def assignTopic (config : Config) (now : Time) (conversationId : Uuid) (topic : JsString × JsString)
    (title : JsString) : Transaction Digest Bool := do
  let db ← get
  match db.conversations.get? conversationId with
  | none => pure false
  | some current =>
      if current.topicType.isSome ∨ current.externalTopicId.isSome ∨
        current.apiVersion = some .v1 then
        pure false
      else do
        let _ ← updateConversation conversationId fun c =>
          { c with
            apiVersion := some .v2
            topicType := some topic.1
            externalTopicId := some topic.2
            title := title }
        let _ ← appendConversationEvent config
          { conversationId
            type := .assigned
            occurredAt := now
            actor := .operator
            cause := js "topic_assignment" }
        pure true

/-- Removes the stored events of a conversation, except the given one. -/
def deleteConversationEvents (conversationId : Uuid) (kept : Option Uuid) (db : Database Digest) :
    Database Digest :=
  let gone := fun e : ConversationEvent => e.conversationId == conversationId && some e.id != kept
  let goneIds := (db.conversationEvents.select gone).map ConversationEvent.id
  { db with
    conversationEvents := db.conversationEvents.delete gone
    conversationEventDeliveries := db.conversationEventDeliveries.delete fun d =>
      goneIds.contains d.eventId }

/-- `DELETE /conversations/v2/:id`. -/
def deleteConversation (config : Config) (now : Time) (conversationId : Uuid) :
    Transaction Digest Bool := do
  let db ← get
  match db.conversations.get? conversationId with
  | none => pure false
  | some _ => do
      let event ← appendConversationEvent config
        { conversationId
          type := .deleted
          occurredAt := now
          actor := .operator
          cause := js "manual_delete" }
      modify (deleteConversationEvents conversationId event)
      modify (deleteConversations now [conversationId])
      pure true

/-- `POST /conversations/v2/:id/state`. -/
def setConversationState (config : Config) (now : Time) (conversationId : Uuid)
    (state : ConversationState) : Transaction Digest Bool := do
  let db ← get
  match db.conversations.get? conversationId with
  | none => pure false
  | some current => do
      let _ ← updateConversation conversationId fun c =>
        { c with state := state, stateChangedAt := now }
      if current.state ≠ state then
        let _ ← appendConversationEvent config
          { conversationId
            type := .stateChanged
            occurredAt := now
            actor := .operator
            cause := js "manual_override"
            state := some (some current.state, state) }
        pure true
      else pure true

/-- Adds an identity to the allowlist. -/
def grantIdentity (entry : EmailAddressAllowlistEntry) : Transaction Digest Unit :=
  insertRow Database.allowlist (fun db t => { db with allowlist := t }) entry

/-- Removes an identity from the allowlist. -/
def revokeIdentity (entry : EmailAddressAllowlistEntry) : Transaction Digest Unit :=
  modify fun db => { db with allowlist := db.allowlist.delete fun e => decide (e = entry) }

end ResendConversation
