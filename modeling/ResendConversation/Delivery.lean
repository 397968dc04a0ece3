import ResendConversation.Conversation

/-! # Delivery projection

`lib/email/delivery.ts`: the delivery columns of an outbound message are recomputed from the
whole ledger of delivery webhooks of its provider email. -/

namespace ResendConversation

open Foundation

variable {Digest : Type}

/-- The delivery state of an event type, for the types that carry one. -/
def deliveryStateByEventType (eventType : JsString) : Option EmailDeliveryState :=
  if eventType = js "email.delivered" then some .delivered
  else if eventType = js "email.delivery_delayed" then some .deliveryDelayed
  else if eventType = js "email.bounced" then some .bounced
  else if eventType = js "email.complained" then some .complained
  else if eventType = js "email.suppressed" then some .suppressed
  else if eventType = js "email.failed" then some .failed
  else none

def isUnreachableState : EmailDeliveryState → Bool
  | .bounced | .complained | .suppressed => true
  | _ => false

/-- `ORDER BY event_created_at, webhook_received_at, id`. -/
def EmailWebhookEvent.before (a b : EmailWebhookEvent) : Prop :=
  a.eventCreatedAt < b.eventCreatedAt ∨ (a.eventCreatedAt = b.eventCreatedAt ∧
    (a.webhookReceivedAt < b.webhookReceivedAt ∨
      (a.webhookReceivedAt = b.webhookReceivedAt ∧ a.id ≤ b.id)))

instance : DecidableRel EmailWebhookEvent.before := fun _ _ =>
  inferInstanceAs (Decidable (_ ∨ _))

structure ProjectedDelivery where
  current : Option (EmailDeliveryState × EmailWebhookEvent) := none
  deliveredAt : Option Time := none

def earlierDate (left : Option Time) (right : Time) : Time :=
  match left with
  | some t => if t ≤ right then t else right
  | none => right

/-- The last event wins, except that a delay never replaces another state. -/
def reduceDeliveryEvents (events : List EmailWebhookEvent) : ProjectedDelivery :=
  events.foldl (fun projected event =>
    match deliveryStateByEventType event.eventType with
    | none => projected
    | some state =>
        let deliveredAt :=
          if state = .delivered then some (earlierDate projected.deliveredAt event.eventCreatedAt)
          else projected.deliveredAt
        if state = .deliveryDelayed ∧
            projected.current.any (fun c => c.1 != .deliveryDelayed) then
          { projected with deliveredAt }
        else { current := some (state, event), deliveredAt }) {}

/-- The delivery event and the termination that follow a projected state. -/
def reportDelivery (config : Config) (before : EmailMessage Digest) (conversationId : Uuid)
    (state : EmailDeliveryState) (at_ : Time) : Transaction Digest Unit := do
  let db ← get
  let stateBefore := (db.conversations.get? conversationId).map EmailConversation.state
  if before.deliveryState ≠ some state then
    let _ ← appendConversationEvent config
      { conversationId
        type := .messageDeliveryUpdated
        occurredAt := at_
        actor := .system
        cause := js "resend_delivery_webhook"
        messageId := some before.id
        deliveryState := some state }
    pure ()
  else pure ()
  if isUnreachableState state then
    let stateChanged ← markConversationTerminated conversationId at_
    if stateChanged then
      let _ ← appendConversationEvent config
        { conversationId
          type := .stateChanged
          occurredAt := at_
          actor := .system
          cause := js "unreachable_delivery"
          state := some (stateBefore, .terminated) }
      pure ()
    else pure ()
  else pure ()

def projectOutboundDeliveryStateForResendEmail (config : Config) (resendEmailId : JsString) :
    Transaction Digest Unit := do
  let db ← get
  let events := db.webhookEvents.selectSorted
    (fun e => e.emailId == resendEmailId && (deliveryStateByEventType e.eventType).isSome)
    EmailWebhookEvent.before
  let projected := reduceDeliveryEvents events
  match projected.current with
  | none => pure ()
  | some (state, event) =>
      let outbound := fun m : EmailMessage Digest =>
        m.direction == .outbound && m.resendEmailId == some resendEmailId
      let messageBefore := db.messages.rows.find? outbound
      let _ ← updateMessages outbound fun m =>
        { m with
          deliveryState := some state
          deliveryStateDetail := event.deliveryDetail
          deliveryStateUpdatedAt := some event.eventCreatedAt
          deliveredAt := projected.deliveredAt }
      match messageBefore with
      | none => pure ()
      | some before =>
          match before.conversationId with
          | none => pure ()
          | some conversationId =>
              reportDelivery config before conversationId state event.eventCreatedAt

def reconcileOutboundDeliveryState (config : Config) (resendEmailId : JsString) :
    Transaction Digest Unit :=
  projectOutboundDeliveryStateForResendEmail config resendEmailId

end ResendConversation
