import ResendConversation.System

/-! # The event runtimes

`lib/conversation-event-runtime.ts`: any number of runtimes beside the service.  A drain of a
runtime claims deliveries under a lease, publishes them one after another outside any
transaction, and acknowledges each delivery or schedules its retry.  The service itself only
inserts and deletes delivery rows; the columns that the runtimes work with are kept here,
under the same key. -/

namespace ResendConversation

open Foundation

variable {Digest : Type}

def eventLeaseMs : Time := 30_000
def eventBatchSize : ℕ := 50
def eventRetryDelaysMs : List Time := [1_000, 5_000, 30_000, 120_000, 300_000]

/-- The columns of a row of `conversation_event_deliveries`.  The event of a delivery is
created in the same transaction, so that `createdAt` is the time of both. -/
structure DeliveryColumns where
  eventId : Uuid
  createdAt : Time
  attemptCount : ℕ := 0
  nextAttemptAt : Time
  leaseToken : Option Uuid := none
  leaseUntil : Option Time := none
  publishedAt : Option Time := none
  lastErrorCode : Option JsString := none
deriving DecidableEq

/-- A delivery as a drain holds it; the event row stands for its payload. -/
structure ClaimedDelivery where
  event : ConversationEvent
  leaseToken : Uuid
  attemptCount : ℕ
deriving DecidableEq

/-- Whether the row still carries the lease of the claim. -/
def ClaimedDelivery.owns (delivery : ClaimedDelivery) (d : DeliveryColumns) : Bool :=
  d.eventId == delivery.event.id && d.leaseToken == some delivery.leaseToken

/-- A publication that reached the broker. -/
structure Publication where
  runtime : ℕ
  delivery : ClaimedDelivery
deriving DecidableEq

/-- What a drain does with the first of its deliveries, before it goes on to the others. -/
inductive EventDrain where
  | publishing (delivery : ClaimedDelivery) (rest : List ClaimedDelivery)
  | acknowledging (delivery : ClaimedDelivery) (rest : List ClaimedDelivery)
  | retrying (delivery : ClaimedDelivery) (rest : List ClaimedDelivery) (errorCode : JsString)
deriving DecidableEq

/-- The service with its event runtimes.  A runtime is in `drains` while its drain runs. -/
structure EventedSystem (Digest : Type) where
  service : System Digest
  deliveries : Table DeliveryColumns.eventId
  drains : Table (Prod.fst : ℕ × EventDrain → ℕ)
  nextToken : Uuid
  published : List Publication

namespace EventedSystem

def initial (config : Config) (now : Time) : EventedSystem Digest where
  service := .initial config now
  deliveries := .empty
  drains := .empty
  nextToken := 0
  published := []

/-! ### Statements -/

/-- The columns of the delivery rows that the service has stored, those of a new row by their
defaults. -/
def syncDeliveries (now : Time) (db : Database Digest)
    (deliveries : Table DeliveryColumns.eventId) :
    Table DeliveryColumns.eventId :=
  ⟨db.conversationEventDeliveries.rows.map fun d => (deliveries.get? d.eventId).getD
      { eventId := d.eventId, createdAt := now, nextAttemptAt := now }, by
    have hkeys : (db.conversationEventDeliveries.rows.map fun d => (deliveries.get? d.eventId).getD
        { eventId := d.eventId, createdAt := now, nextAttemptAt := now }).map
          DeliveryColumns.eventId =
        db.conversationEventDeliveries.rows.map ConversationEventDelivery.eventId := by
      rw [List.map_map]
      refine List.map_congr_left fun d _ => ?_
      cases h : deliveries.get? d.eventId with
      | none => simp [h]
      | some row => simpa [h] using Table.key_of_get? h
    rw [hkeys]
    exact db.conversationEventDeliveries.nodup⟩

/-- An earlier event of the conversation has not been published. -/
def blocked (db : Database Digest) (deliveries : Table DeliveryColumns.eventId)
    (e : ConversationEvent) :
    Bool :=
  db.conversationEvents.rows.any fun older => older.conversationId == e.conversationId &&
    older.sequence < e.sequence && (deliveries.get? older.id).any fun d => d.publishedAt.isNone

/-- The deliveries that `claimDeliveries` selects; `locked` are the rows that another
transaction holds. -/
def claimable (db : Database Digest) (deliveries : Table DeliveryColumns.eventId) (now : Time)
    (locked : List Uuid) : List DeliveryColumns :=
  (deliveries.selectSorted
    (fun d => d.publishedAt.isNone && d.nextAttemptAt ≤ now && d.leaseUntil.all (· ≤ now) &&
      ((db.conversationEvents.get? d.eventId).any fun e => !blocked db deliveries e) &&
      !locked.contains d.eventId)
    fun a b => a.createdAt < b.createdAt ∨
      (a.createdAt = b.createdAt ∧ a.eventId ≤ b.eventId)).take eventBatchSize

/-- Takes a lease on the selected deliveries. -/
def leaseDeliveries (now : Time) (token : Uuid) (ids : List Uuid)
    (deliveries : Table DeliveryColumns.eventId) : Table DeliveryColumns.eventId :=
  deliveries.update (fun d => ids.contains d.eventId) fun d =>
    { d with
      leaseToken := some token
      leaseUntil := some (now + eventLeaseMs)
      attemptCount := d.attemptCount + 1 }

def acknowledgeDelivery (now : Time) (delivery : ClaimedDelivery)
    (deliveries : Table DeliveryColumns.eventId) : Table DeliveryColumns.eventId :=
  deliveries.update delivery.owns fun d =>
    { d with
      publishedAt := some now
      leaseToken := none
      leaseUntil := none
      lastErrorCode := none }

def retryDelivery (now : Time) (delivery : ClaimedDelivery) (errorCode : JsString)
    (deliveries : Table DeliveryColumns.eventId) : Table DeliveryColumns.eventId :=
  deliveries.update delivery.owns fun d =>
    { d with
      nextAttemptAt := now + retryDelay eventRetryDelaysMs delivery.attemptCount
      leaseToken := none
      leaseUntil := none
      lastErrorCode := some (errorCode.take 64) }

/-! ### Drains -/

/-- The drain goes on to its next delivery, or ends. -/
def proceed (s : EventedSystem Digest) (runtime : ℕ) : List ClaimedDelivery → EventedSystem Digest
  | [] => { s with drains := s.drains.delete fun d => d.1 == runtime }
  | delivery :: rest => { s with drains := s.drains.set (runtime, .publishing delivery rest) }

/-- `claimDeliveries`, at the start of a drain; a runtime runs one drain at a time. -/
def claimDeliveries (s : EventedSystem Digest) (runtime : ℕ) (readAt : Option Time)
    (locked : List Uuid) :
    Option (EventedSystem Digest) :=
  if s.drains.get? runtime = none then
    let now := s.service.clock readAt
    let rows := claimable s.service.db s.deliveries now locked
    let claimed := rows.filterMap fun d =>
      (s.service.db.conversationEvents.get? d.eventId).map fun e =>
      ({ event := e, leaseToken := s.nextToken, attemptCount := d.attemptCount + 1 } :
        ClaimedDelivery)
    some ({ s with
      deliveries := leaseDeliveries now s.nextToken (rows.map DeliveryColumns.eventId) s.deliveries
      nextToken := s.nextToken + 1 }.proceed runtime claimed)
  else none

/-- `sink.publish`: whether the event reached the broker, and the error that the client saw. -/
def publish (s : EventedSystem Digest) (runtime : ℕ) (reached : Bool) (error : Option JsString) :
    Option (EventedSystem Digest) :=
  match s.drains.get? runtime with
  | some (_, .publishing delivery rest) =>
      if reached = true ∨ error.isSome then
        some { s with
          published := if reached then s.published ++ [⟨runtime, delivery⟩] else s.published
          drains := s.drains.set (runtime, match error with
            | none => .acknowledging delivery rest
            | some errorCode => .retrying delivery rest errorCode) }
      else none
  | _ => none

/-- The statement of `acknowledgeDelivery`: whether it commits, and the error that the client
saw. -/
def acknowledge (s : EventedSystem Digest) (runtime : ℕ) (commits : Bool)
    (error : Option JsString) :
    Option (EventedSystem Digest) :=
  match s.drains.get? runtime with
  | some (_, .acknowledging delivery rest) =>
      if commits = true ∨ error.isSome then
        let s : EventedSystem Digest := { s with
          deliveries :=
            if commits then acknowledgeDelivery s.service.now delivery s.deliveries
              else s.deliveries }
        match error with
        | none => some (s.proceed runtime rest)
        | some errorCode =>
            some { s with drains := s.drains.set (runtime, .retrying delivery rest errorCode) }
      else none
  | _ => none

/-- The statement of `retryDelivery`; when it throws, the whole drain ends. -/
def retry (s : EventedSystem Digest) (runtime : ℕ) (commits throws : Bool) :
    Option (EventedSystem Digest) :=
  match s.drains.get? runtime with
  | some (_, .retrying delivery rest errorCode) =>
      if commits = true ∨ throws = true then
        let s : EventedSystem Digest := { s with
          deliveries :=
            if commits then retryDelivery s.service.now delivery errorCode s.deliveries
            else s.deliveries }
        some (s.proceed runtime (if throws then [] else rest))
      else none
  | _ => none

end EventedSystem

/-! ### The transition function -/

inductive EventedAction (Digest : Type) where
  | service (a : Action Digest)
  | claim (runtime : ℕ) (readAt : Option Time) (locked : List Uuid)
  | publish (runtime : ℕ) (reached : Bool) (error : Option JsString)
  | acknowledge (runtime : ℕ) (commits : Bool) (error : Option JsString)
  | retry (runtime : ℕ) (commits throws : Bool)
  | crash (runtime : ℕ)

variable [DecidableEq Digest]

def EventedSystem.step (rt : Runtime Digest) (s : EventedSystem Digest) :
    EventedAction Digest → Option (EventedSystem Digest)
  | .service a => (ResendConversation.step rt s.service a).map fun service =>
      { s with service, deliveries := syncDeliveries service.now service.db s.deliveries }
  | .claim runtime readAt locked => s.claimDeliveries runtime readAt locked
  | .publish runtime reached error => s.publish runtime reached error
  | .acknowledge runtime commits error => s.acknowledge runtime commits error
  | .retry runtime commits throws => s.retry runtime commits throws
  | .crash runtime => some (s.proceed runtime [])

/-- The states that a run of the service and its runtimes can reach while every step
satisfies `ok`. -/
def EventedReachable (rt : Runtime Digest) (ok : EventedSystem Digest → EventedAction Digest → Prop)
    (s : EventedSystem Digest) : Prop :=
  ∃ config now, Run (EventedSystem.step rt) ok (.initial config now) s

end ResendConversation
