import ResendConversation.DeliveryBackfill
import ResendConversation.ThreadRuns

/-! # The order of delivery events

A projection terminates the conversation of a message when the reduced state of its email is a
hard failure, and the reduction prefers the last settled event.  A conversation is therefore
terminated by a hard failure in its ledger exactly when the failure is the last settled event of
its email at some projection, whatever the order of the webhooks and of the acceptances. -/

namespace ResendConversation

open Foundation Tx

variable {Digest : Type}

/-! ### Hard failures -/

/-- A bounce, a complaint or a suppression. -/
def EmailWebhookEvent.hard (e : EmailWebhookEvent) : Bool :=
  (deliveryStateByEventType e.eventType).any isUnreachableState

/-- The ledger reports a hard failure of the email. -/
def HardFailure (ledger : List EmailWebhookEvent) (emailId : JsString) : Prop :=
  ∃ e ∈ ledger, e.emailId = emailId ∧ e.hard = true

instance (ledger : List EmailWebhookEvent) (emailId : JsString) :
    Decidable (HardFailure ledger emailId) :=
  inferInstanceAs (Decidable (∃ e ∈ ledger, _))

/-- The last event of the email that is not a delay, in the order of the ledger. -/
def lastSettled (ledger : List EmailWebhookEvent) (emailId : JsString) : Option EmailWebhookEvent :=
  ((deliveryLedger ledger emailId).filter EmailWebhookEvent.terminal).getLast?

/-- No settled event of the email is after its hard failures. -/
def FailedLast (ledger : List EmailWebhookEvent) (emailId : JsString) : Prop :=
  (lastSettled ledger emailId).any EmailWebhookEvent.hard = true

instance (ledger : List EmailWebhookEvent) (emailId : JsString) :
    Decidable (FailedLast ledger emailId) :=
  inferInstanceAs (Decidable (_ = true))

theorem EmailWebhookEvent.terminal_of_hard {e : EmailWebhookEvent} (h : e.hard = true) :
    e.terminal = true := by
  rw [hard] at h
  rw [terminal, contains_terminalEventTypes]
  cases hstate : deliveryStateByEventType e.eventType with
  | none => simp [hstate] at h
  | some state =>
      rw [hstate] at h
      cases state with
      | deliveryDelayed => cases h
      | _ => rfl

theorem FailedLast.hardFailure {ledger : List EmailWebhookEvent} {emailId : JsString}
    (h : FailedLast ledger emailId) : HardFailure ledger emailId := by
  rw [FailedLast] at h
  cases hlast : lastSettled ledger emailId with
  | none =>
      rw [hlast] at h
      cases h
  | some e =>
      rw [hlast] at h
      have hmem := mem_deliveryLedger.mp (List.mem_of_mem_filter (List.mem_of_getLast? hlast))
      exact ⟨e, hmem.1, hmem.2.1, h⟩

/-- The reduced state is unreachable exactly when the last settled event is a hard failure. -/
theorem unreachable_iff_failedLast {ledger : List EmailWebhookEvent} {emailId : JsString} :
    (reduceDeliveryEvents (deliveryLedger ledger emailId)).current.any
      (fun c => isUnreachableState c.1) = true ↔ FailedLast ledger emailId := by
  have hstates : ∀ e ∈ deliveryLedger ledger emailId,
      (deliveryStateByEventType e.eventType).isSome = true :=
    fun e he => (mem_deliveryLedger.mp he).2.2
  have hreported : ∀ e : EmailWebhookEvent,
      (reported e).any (fun c => isUnreachableState c.1) = e.hard := by
    intro e
    rw [reported, Option.any_map]
    rfl
  rw [reduceDeliveryEvents_current hstates, FailedLast, lastSettled]
  cases hlast : ((deliveryLedger ledger emailId).filter EmailWebhookEvent.terminal).getLast? with
  | some e =>
      rw [Option.some_or, Option.bind_some, hreported]
      rfl
  | none =>
      rw [Option.none_or]
      cases hany : (deliveryLedger ledger emailId).getLast? with
      | none => rfl
      | some e =>
          rw [Option.bind_some, hreported]
          have hterminal : e.terminal ≠ true :=
            List.filter_eq_nil_iff.mp (List.getLast?_eq_none_iff.mp hlast) e
              (List.mem_of_getLast? hany)
          have hhard : e.hard ≠ true := fun h => hterminal (EmailWebhookEvent.terminal_of_hard h)
          simp [hhard]

/-! ### What termination depends on -/

/-- The columns of a message that decide which conversation its events reach. -/
structure MessageFate where
  direction : EmailDirection
  state : EmailMessageState
  conversationId : Option Uuid
  resendEmailId : Option JsString

def EmailMessage.fate (m : EmailMessage Digest) : MessageFate where
  direction := m.direction
  state := m.state
  conversationId := m.conversationId
  resendEmailId := m.resendEmailId

namespace Database

/-- An outbound message of the conversation was accepted as the email. -/
def AcceptedIn (db : Database Digest) (emailId : JsString) (c : Uuid) : Prop :=
  ∃ m ∈ db.messages, m.direction = .outbound ∧ m.conversationId = some c ∧
    m.resendEmailId = some emailId

/-- The ledger reports a hard failure of an accepted message of the conversation. -/
def Condemned (db : Database Digest) (c : Uuid) : Prop :=
  ∃ emailId, db.AcceptedIn emailId c ∧ HardFailure db.webhookEvents.rows emailId

/-- Exactly the conversations with a hard failure are terminated. -/
def TerminatedByFailure (db : Database Digest) : Prop :=
  ∀ c ∈ db.conversations, c.state = .terminated ↔ db.Condemned c.id

def state? (db : Database Digest) (c : Uuid) : Option ConversationState :=
  (db.conversations.get? c).map EmailConversation.state

theorem acceptedIn_congr {db db' : Database Digest}
    (h : ∀ id, (db'.messages.get? id).map EmailMessage.fate = (db.messages.get? id).map
      EmailMessage.fate) (emailId : JsString) (c : Uuid) :
    db'.AcceptedIn emailId c ↔ db.AcceptedIn emailId c := by
  have key : ∀ {a b : Database Digest},
      (∀ id, (b.messages.get? id).map EmailMessage.fate = (a.messages.get? id).map
        EmailMessage.fate) → a.AcceptedIn emailId c → b.AcceptedIn emailId c := by
    rintro a b h ⟨m, hm, hdirection, hc, he⟩
    have hget := h m.id
    rw [Table.get?_eq_some.mpr ⟨hm, rfl⟩, Option.map_some] at hget
    obtain ⟨m', hm', hfate⟩ := Option.map_eq_some_iff.mp hget
    exact ⟨m', Table.mem_of_get? hm', (congrArg MessageFate.direction hfate).trans hdirection,
      (congrArg MessageFate.conversationId hfate).trans hc,
        (congrArg MessageFate.resendEmailId hfate).trans he⟩
  exact ⟨key fun id => (h id).symm, key h⟩

end Database

/-- A transaction that terminates the conversations of `p` and otherwise only reports. -/
structure FailureReport (p : Uuid → Prop) (db db' : Database Digest) : Prop where
  ledger : db'.webhookEvents = db.webhookEvents
  fates : ∀ id, (db'.messages.get? id).map EmailMessage.fate =
    (db.messages.get? id).map EmailMessage.fate
  stored : ∀ c, (db'.state? c).isSome = (db.state? c).isSome
  terminated : ∀ c, db'.state? c = some .terminated ↔
    db.state? c = some .terminated ∨ (db.state? c).isSome = true ∧ p c

namespace FailureReport

variable {p q : Uuid → Prop} {a b c : Database Digest}

theorem of_eq (hl : b.webhookEvents = a.webhookEvents) (hm : b.messages = a.messages)
    (hs : ∀ c, b.state? c = a.state? c) : FailureReport (fun _ => False) a b where
  ledger := hl
  fates := fun id => by rw [hm]
  stored := fun c => by rw [hs]
  terminated := fun c => by rw [hs]; simp

instance : Std.Refl (@FailureReport Digest fun _ => False) := ⟨fun _ => of_eq rfl rfl fun _ => rfl⟩

theorem trans (h : FailureReport p a b) (h' : FailureReport q b c) :
    FailureReport (fun d => p d ∨ q d) a c where
  ledger := h'.ledger.trans h.ledger
  fates := fun id => (h'.fates id).trans (h.fates id)
  stored := fun d => (h'.stored d).trans (h.stored d)
  terminated := fun d => by
    rw [h'.terminated, h.terminated, h.stored]
    tauto

theorem congr (h : FailureReport p a b) (hpq : ∀ d, p d ↔ q d) : FailureReport q a b where
  ledger := h.ledger
  fates := h.fates
  stored := h.stored
  terminated := fun d => by rw [h.terminated, hpq]

instance : IsTrans (Database Digest) (FailureReport fun _ => False) :=
  ⟨fun _ _ _ h h' => (h.trans h').congr fun _ => by simp⟩

theorem acceptedIn (h : FailureReport p a b) (emailId : JsString) (d : Uuid) :
    b.AcceptedIn emailId d ↔ a.AcceptedIn emailId d :=
  Database.acceptedIn_congr h.fates emailId d

end FailureReport

/-! ### Reports -/

theorem state?_updateConversations {db : Database Digest} {p : EmailConversation → Bool}
    {f : EmailConversation → EmailConversation} {keep : ∀ c, (f c).id = c.id} (c : Uuid) :
    Database.state? { db with conversations := db.conversations.update p f keep } c =
      (db.conversations.get? c).map fun row => (if p row then f row else row).state := by
  rw [Database.state?, Table.get?_update, Option.map_map]
  rfl

theorem failureReport_appendConversationEvent (config : Config) (input : ConversationEventInput) :
    Preserves (FailureReport fun _ => False)
    (appendConversationEvent config input : Transaction Digest _) := by
  unfold appendConversationEvent
  split
  · refine .bind (fun db r db' h => ?_) fun r => .bind .get fun db => .bind (.ensure _ _) fun _ =>
      .bind (fun db id db' h => ?_) fun id => .bind (fun db u db' h => ?_) fun _ =>
        .bind (fun db u db' h => ?_) fun _ => .pure _
    · obtain ⟨-, rfl⟩ := updateConversation_eq_ok h
      refine .of_eq rfl rfl fun c => ?_
      rw [state?_updateConversations, Database.state?]
      congr 1
      funext row
      split <;> rfl
    · obtain ⟨-, rfl⟩ := freshId_eq_ok.mp h
      exact .of_eq rfl rfl fun _ => rfl
    · obtain ⟨table, -, rfl⟩ := insertRow_eq_ok.mp h
      exact .of_eq rfl rfl fun _ => rfl
    · obtain ⟨table, -, rfl⟩ := insertRow_eq_ok.mp h
      exact .of_eq rfl rfl fun _ => rfl
  · exact .pure _

theorem failureReport_markConversationTerminated {id : Uuid} {changedAt : Time}
    {db db' : Database Digest} {b : Bool}
    (h : markConversationTerminated id changedAt db = .ok (b, db')) :
    FailureReport (· = id) db db' := by
  obtain ⟨n, db₁, hupdate, h⟩ := bind_eq_ok.mp h
  obtain ⟨-, rfl⟩ := pure_eq_ok.mp h
  rw [updateConversations_eq_ok hupdate]
  refine { ledger := rfl, fates := fun _ => rfl, stored := fun c => ?_, terminated := fun c => ?_ }
  · rw [state?_updateConversations, Database.state?, Option.isSome_map, Option.isSome_map]
  · rw [state?_updateConversations, Database.state?]
    cases hrow : db.conversations.get? c with
    | none => simp
    | some row =>
        have hid : row.id = c := Table.key_of_get? hrow
        by_cases hc : c = id
        · by_cases hstate : row.state = .terminated
          · simp [hid, hc, hstate]
          · simp [hid, hc, hstate]
        · simp [hid, hc]

theorem failureReport_reportDelivery {config : Config} {before : EmailMessage Digest} {id : Uuid}
    {state : EmailDeliveryState} {time : Time} {db db' : Database Digest} {u : Unit}
    (h : reportDelivery config before id state time db = .ok (u, db')) :
    FailureReport (fun c => isUnreachableState state = true ∧ c = id) db db' := by
  obtain ⟨_, _, hget, h⟩ := bind_eq_ok.mp h
  obtain ⟨rfl, rfl⟩ := get_eq_ok.mp hget
  have hterminate : ∀ {db₁ : Database Digest} {u : Unit}, (if isUnreachableState state then do
      let stateChanged ← markConversationTerminated id time
      if stateChanged then
        let _ ← appendConversationEvent config
          { conversationId := id
            type := .stateChanged
            occurredAt := time
            actor := .system
            cause := js "unreachable_delivery"
            state := some ((db.conversations.get? id).map EmailConversation.state, .terminated) }
        pure ()
      else pure ()
    else pure () : Transaction Digest Unit) db₁ = .ok (u, db') →
      FailureReport (fun c => isUnreachableState state = true ∧ c = id) db₁ db' := by
    intro db₁ u h
    cases hstate : isUnreachableState state with
    | false =>
        rw [hstate] at h
        obtain ⟨-, rfl⟩ := pure_eq_ok.mp h
        exact (Std.Refl.refl db₁ : FailureReport (fun _ => False) db₁ db₁).congr fun c => by simp
    | true =>
        rw [hstate] at h
        obtain ⟨changed, db₂, hmark, h⟩ := bind_eq_ok.mp h
        have hevent : FailureReport (fun _ => False) db₂ db' := by
          revert h
          have hlog : Preserves (FailureReport fun _ => False) (if changed then do
              let _ ← appendConversationEvent config
                { conversationId := id
                  type := .stateChanged
                  occurredAt := time
                  actor := .system
                  cause := js "unreachable_delivery"
                  state := some ((db.conversations.get? id).map EmailConversation.state,
                    .terminated) }
              pure ()
            else pure () : Transaction Digest Unit) :=
            .ite (.bind (failureReport_appendConversationEvent _ _) fun _ => .pure _) (.pure _)
          exact fun h => hlog h
        exact ((failureReport_markConversationTerminated hmark).trans hevent).congr fun c => by simp
  cases hsame : decide (before.deliveryState ≠ some state) with
  | true =>
      rw [if_pos (of_decide_eq_true hsame)] at h
      obtain ⟨_, db₁, hevent, h⟩ := bind_eq_ok.mp h
      exact ((failureReport_appendConversationEvent _ _ hevent).trans (hterminate h)).congr
        fun c => by simp
  | false =>
      rw [if_neg (of_decide_eq_false hsame)] at h
      exact hterminate h

/-- A projection terminates the conversation of an email whose last settled event is a hard
failure. -/
theorem failureReport_project {config : Config} {emailId : JsString} {db db' : Database Digest}
    {u : Unit} (hdistinct : db.Distinct EmailMessage.resendEmailId)
    (h : projectOutboundDeliveryStateForResendEmail config emailId db = .ok (u, db')) :
    FailureReport (fun c => FailedLast db.webhookEvents.rows emailId ∧ db.AcceptedIn emailId c)
      db db' := by
  obtain ⟨_, _, hget, h⟩ := bind_eq_ok.mp h
  obtain ⟨rfl, rfl⟩ := get_eq_ok.mp hget
  have hunreachable := @unreachable_iff_failedLast db.webhookEvents.rows emailId
  have hevents : db.webhookEvents.selectSorted
      (fun e => e.emailId == emailId && (deliveryStateByEventType e.eventType).isSome)
        EmailWebhookEvent.before = deliveryLedger db.webhookEvents.rows emailId := rfl
  dsimp only at h
  rw [hevents] at h
  cases hcurrent :
    (reduceDeliveryEvents (deliveryLedger db.webhookEvents.rows emailId)).current with
  | none =>
      rw [hcurrent] at h hunreachable
      obtain ⟨-, rfl⟩ := pure_eq_ok.mp h
      have hnot : ¬FailedLast db.webhookEvents.rows
        emailId := fun hf => by cases hunreachable.mpr hf
      exact (Std.Refl.refl db : FailureReport (fun _ => False) db db).congr fun c => by simp [hnot]
  | some current =>
      obtain ⟨state, event⟩ := current
      rw [hcurrent] at h hunreachable
      rw [Option.any_some] at hunreachable
      obtain ⟨n, db₁, hupdate, h⟩ := bind_eq_ok.mp h
      obtain ⟨-, hdb₁⟩ := updateMessages_eq_ok.mp hupdate
      have hcolumns : FailureReport (fun _ => False) db db₁ := by
        rw [hdb₁]
        refine { ledger := rfl, fates := fun id => ?_, stored := fun c => rfl, terminated :=
          fun c => ?_ }
        · rw [Table.get?_update, Option.map_map]
          congr 1
          funext m
          rw [Function.comp_apply]
          split <;> rfl
        · simp only [and_false, or_false]
          exact Iff.rfl
      have houtbound : ∀ m : EmailMessage Digest,
          (m.direction == .outbound && m.resendEmailId == some emailId) = true ↔
            m.direction = .outbound ∧ m.resendEmailId = some emailId := by
        intro m
        rw [Bool.and_eq_true, beq_iff_eq, beq_iff_eq]
      cases hfound : db.messages.rows.find? (fun m : EmailMessage Digest =>
          m.direction == .outbound && m.resendEmailId == some emailId) with
      | none =>
          rw [hfound] at h
          obtain ⟨-, rfl⟩ := pure_eq_ok.mp h
          have hnone : ∀ c, ¬db.AcceptedIn emailId c := by
            rintro c ⟨m, hm, hdirection, -, he⟩
            exact List.find?_eq_none.mp hfound m hm ((houtbound m).mpr ⟨hdirection, he⟩)
          exact hcolumns.congr fun c => by simp [hnone c]
      | some before =>
          rw [hfound] at h
          dsimp only at h
          have hselected := List.find?_some hfound
          have hbefore := (houtbound before).mp hselected
          have hmem : before ∈ db.messages := List.mem_of_find?_eq_some hfound
          have hthe : ∀ c, db.AcceptedIn emailId c ↔ before.conversationId = some c := by
            intro c
            constructor
            · rintro ⟨m, hm, -, hc, he⟩
              rw [hdistinct before hmem m hm (by rw [hbefore.2]; rfl) (hbefore.2.trans he.symm)]
              exact hc
            · intro hc
              exact ⟨before, hmem, hbefore.1, hc, hbefore.2⟩
          cases hconversation : before.conversationId with
          | none =>
              rw [hconversation] at h
              obtain ⟨-, rfl⟩ := pure_eq_ok.mp h
              exact hcolumns.congr fun c => by simp [hthe c, hconversation]
          | some id =>
              rw [hconversation] at h
              refine (hcolumns.trans (failureReport_reportDelivery h)).congr fun c => ?_
              rw [false_or, hunreachable, hthe, hconversation, Option.some.injEq, eq_comm]

theorem failureReport_reconcileAll {config : Config} {ids : List JsString}
    {db db' : Database Digest} {u : Unit} (hsound : db.Sound)
    (h : reconcileAll config ids db = .ok (u, db')) :
    FailureReport (fun c => ∃ emailId ∈ ids, FailedLast db.webhookEvents.rows emailId ∧
      db.AcceptedIn emailId c)
      db db' := by
  induction ids generalizing db with
  | nil =>
      obtain ⟨-, rfl⟩ := pure_eq_ok.mp h
      exact (Std.Refl.refl db : FailureReport (fun _ => False) db db).congr fun c => by simp
  | cons id ids ih =>
      obtain ⟨_, db₁, hproject, h⟩ := bind_eq_ok.mp h
      have hfirst := failureReport_project hsound.resendEmailId hproject
      have hrest :=
        ih (((@minor_projectOutboundDeliveryState Digest (fun x => x) _ _) hproject).keeps hsound) h
      refine (hfirst.trans hrest).congr fun c => ?_
      rw [hfirst.ledger]
      simp only [List.mem_cons, exists_eq_or_imp, hfirst.acceptedIn]

/-! ### Webhooks and acceptances -/

/-- The transactions that record delivery events and provider identifiers: a delivery webhook and
the acceptances of the synchronous path, of the attachment lane and of the batch lane. -/
inductive DeliveryAction (Digest : Type) where
  | webhook (now : Time) (svixId eventType emailId : JsString) (eventCreatedAt : Time)
      (deliveryDetail : Option JsString)
  | sent (messageId : Uuid) (resendEmailId : JsString)
  | entry (claimed : ClaimedEntry Digest) (resendEmailId : JsString)
  | batch (claimed : ClaimedBatch Digest) (resendEmailIds : List JsString)

namespace DeliveryAction

/-- A transaction that throws leaves the database as it was.  `deliverPendingMessage` has read the
message as pending under its lock. -/
def step (config : Config) (db : Database Digest) : DeliveryAction Digest → Option (Database Digest)
  | .webhook now svixId eventType emailId eventCreatedAt deliveryDetail =>
      some (Tx.execute (recordDeliveryWebhook config now svixId eventType emailId eventCreatedAt
        deliveryDetail) db).2
  | .sent messageId resendEmailId =>
      if (db.messages.get? messageId).any fun m => m.state == .pending then
        some (Tx.execute (recordSent config messageId resendEmailId) db).2
      else none
  | .entry claimed resendEmailId =>
      some (Tx.execute (acceptEntry config claimed resendEmailId) db).2
  | .batch claimed resendEmailIds =>
      some (Tx.execute (finalizeAcceptedBatch config claimed resendEmailIds) db).2

/-- The emails that the action projects. -/
def emails (db : Database Digest) : DeliveryAction Digest → List JsString
  | .webhook _ svixId _ emailId _ _ =>
      [((db.webhookEvents.get? svixId).map EmailWebhookEvent.emailId).getD emailId]
  | .sent _ resendEmailId => [resendEmailId]
  | .entry _ resendEmailId => [resendEmailId]
  | .batch _ resendEmailIds => resendEmailIds

/-- The ledger that the action projects. -/
def ledger (db : Database Digest) : DeliveryAction Digest → List EmailWebhookEvent
  | .webhook now svixId eventType emailId eventCreatedAt deliveryDetail =>
      if (db.webhookEvents.get? svixId).isSome then db.webhookEvents.rows
      else
        db.webhookEvents.rows ++
          [{ id := db.nextId, svixId, eventType, webhookReceivedAt := now, eventCreatedAt, emailId,
             deliveryDetail }]
  | _ => db.webhookEvents.rows

/-- The provider identifier of a message with which the action projects. -/
def recorded : DeliveryAction Digest → EmailMessage Digest → Option JsString
  | .webhook .., m => m.resendEmailId
  | .sent messageId resendEmailId, m =>
      if m.id == messageId then some resendEmailId else m.resendEmailId
  | .entry claimed resendEmailId, m =>
      if m.id == claimed.message.id && m.state == .pending then some resendEmailId
        else m.resendEmailId
  | .batch claimed resendEmailIds, m =>
      if claimed.messageIds.contains m.id && m.state == .pending then acceptedId claimed
        resendEmailIds m.id
      else m.resendEmailId

/-- An outbound message of the conversation has the email or is accepted as it. -/
def Assigns (a : DeliveryAction Digest) (db : Database Digest) (emailId : JsString) (c : Uuid) :
    Prop :=
  ∃ m ∈ db.messages, m.direction = .outbound ∧ m.conversationId = some c ∧
    a.recorded m = some emailId

instance (a : DeliveryAction Digest) (db : Database Digest) (emailId : JsString) (c : Uuid) :
    Decidable (a.Assigns db emailId c) :=
  inferInstanceAs (Decidable (∃ m ∈ db.messages.rows, _))

/-- When the ledger reports a hard failure of an email of a live conversation that the action
projects, then a hard failure is the last settled event of such an email. -/
def Decisive (db : Database Digest) (a : DeliveryAction Digest) : Prop :=
  ∀ c ∈ db.conversations, c.state ≠ .terminated →
    (∃ emailId ∈ a.emails db, HardFailure (a.ledger db) emailId ∧ a.Assigns db emailId c.id) →
      ∃ emailId ∈ a.emails db, FailedLast (a.ledger db) emailId ∧ a.Assigns db emailId c.id

instance (db : Database Digest) (a : DeliveryAction Digest) : Decidable (a.Decisive db) :=
  inferInstanceAs (Decidable (∀ c ∈ db.conversations.rows, _))

theorem mem_ledger {db : Database Digest} {a : DeliveryAction Digest} {e : EmailWebhookEvent}
    (h : e ∈ a.ledger db) : e ∈ db.webhookEvents ∨ e.emailId ∈ a.emails db := by
  cases a with
  | webhook now svixId eventType emailId eventCreatedAt deliveryDetail =>
      rw [ledger] at h
      cases hget : db.webhookEvents.get? svixId with
      | some existing =>
          rw [hget] at h
          exact .inl h
      | none =>
          rw [hget] at h
          cases List.mem_append.mp h with
          | inl h => exact .inl h
          | inr h =>
              rw [List.mem_singleton.mp h, emails, hget]
              exact .inr List.mem_cons_self
  | sent messageId resendEmailId => exact .inl h
  | entry claimed resendEmailId => exact .inl h
  | batch claimed resendEmailIds => exact .inl h

theorem mem_ledger_of_mem {db : Database Digest} (a : DeliveryAction Digest) {e : EmailWebhookEvent}
    (h : e ∈ db.webhookEvents) : e ∈ a.ledger db := by
  cases a with
  | webhook now svixId eventType emailId eventCreatedAt deliveryDetail =>
      rw [ledger]
      split
      · exact h
      · exact List.mem_append_left _ h
  | sent messageId resendEmailId => exact h
  | entry claimed resendEmailId => exact h
  | batch claimed resendEmailIds => exact h

/-- A message that gets a provider identifier gets a projected one. -/
theorem recorded_cases (db : Database Digest) {a : DeliveryAction Digest} {m : EmailMessage Digest}
    {emailId : JsString} (h : a.recorded m = some emailId) :
    m.resendEmailId = some emailId ∨ emailId ∈ a.emails db := by
  cases a with
  | webhook => exact .inl h
  | sent messageId resendEmailId =>
      rw [recorded] at h
      split at h
      · exact .inr (List.mem_singleton.mpr (Option.some.inj h).symm)
      · exact .inl h
  | entry claimed resendEmailId =>
      rw [recorded] at h
      split at h
      · exact .inr (List.mem_singleton.mpr (Option.some.inj h).symm)
      · exact .inl h
  | batch claimed resendEmailIds =>
      rw [recorded] at h
      split at h
      · exact .inr (List.mem_of_getElem? h)
      · exact .inl h

end DeliveryAction

/-- Pending messages have no provider identifier. -/
def Database.Unsent (db : Database Digest) : Prop :=
  ∀ m ∈ db.messages, m.state = .pending → m.resendEmailId = none

/-- An action changes only the provider identifiers of pending messages. -/
theorem DeliveryAction.recorded_of_some {config : Config} {db db' : Database Digest}
    {a : DeliveryAction Digest} (hunsent : db.Unsent) (hstep : a.step config db = some db')
    {m : EmailMessage Digest} (hm : m ∈ db.messages) {emailId : JsString}
    (h : m.resendEmailId = some emailId) : a.recorded m = some emailId := by
  have hpending : m.state ≠ .pending := fun hp => by
    rw [hunsent m hm hp] at h
    cases h
  cases a with
  | webhook => exact h
  | sent messageId resendEmailId =>
      rw [step] at hstep
      split at hstep
      next henabled =>
        have hne : m.id ≠ messageId := by
          rintro rfl
          rw [Table.get?_eq_some.mpr ⟨hm, rfl⟩, Option.any_some, beq_iff_eq] at henabled
          exact hpending henabled
        rw [recorded, if_neg (by simpa using hne)]
        exact h
      next => cases hstep
  | entry claimed resendEmailId =>
      rw [recorded, if_neg (by simp [hpending])]
      exact h
  | batch claimed resendEmailIds =>
      rw [recorded, if_neg (by simp [hpending])]
      exact h

/-! ### Steps -/

theorem failureReport_deleteOwnedBatch (batch : ClaimedBatch Digest) :
    Preserves (FailureReport fun _ => False) (deleteOwnedBatch batch) :=
  .bind .get fun _ => .bind (.ensure _ _) fun _ => .modify fun _ => .of_eq rfl rfl fun _ => rfl

theorem failureReport_deleteOwnedEntry (entry : ClaimedEntry Digest) :
    Preserves (FailureReport fun _ => False) (deleteOwnedEntry entry) :=
  .bind .get fun _ => .bind (.ensure _ _) fun _ => .modify fun _ => .of_eq rfl rfl fun _ => rfl

theorem FailureReport.unsent {p : Uuid → Prop} {db db' : Database Digest}
    (h : FailureReport p db db') (hunsent : db.Unsent) : db'.Unsent := by
  intro m' hm' hpending
  have hget := h.fates m'.id
  rw [Table.get?_eq_some.mpr ⟨hm', rfl⟩, Option.map_some] at hget
  obtain ⟨m, hm, hfate⟩ := Option.map_eq_some_iff.mp hget.symm
  have hstate : m.state = .pending := (congrArg MessageFate.state hfate).trans hpending
  exact (congrArg MessageFate.resendEmailId hfate).symm.trans
    (hunsent m (Table.mem_of_get? hm) hstate)

namespace DeliveryAction

/-- The database with which a committed action projects its emails. -/
structure Recorded (a : DeliveryAction Digest) (db db₁ : Database Digest) : Prop where
  ledger : db₁.webhookEvents.rows = a.ledger db
  states : ∀ c, db₁.state? c = db.state? c
  assigned : ∀ emailId c, db₁.AcceptedIn emailId c ↔ a.Assigns db emailId c
  unsent : db.Unsent → db₁.Unsent
  sound : db₁.Sound

/-- The action records provider identifiers by an update of messages. -/
theorem Recorded.of_update {a : DeliveryAction Digest} {db : Database Digest}
    {p : EmailMessage Digest → Bool} {f : EmailMessage Digest → EmailMessage Digest}
    {keep : ∀ m, (f m).id = m.id} (hledger : a.ledger db = db.webhookEvents.rows)
    (hdirection : ∀ m, (f m).direction = m.direction)
    (hconversation : ∀ m, (f m).conversationId = m.conversationId)
    (hrecorded : ∀ m, (if p m then f m else m).resendEmailId = a.recorded m)
    (hstate : ∀ m, (f m).state ≠ .pending)
    (hsound : Database.Sound { db with messages := db.messages.update p f keep }) :
    a.Recorded db { db with messages := db.messages.update p f keep } := by
  have hmem : ∀ m' ∈ db.messages.update p f keep, ∃ m ∈ db.messages,
      (if p m then f m else m) = m' :=
    fun _ h' => Table.mem_update.mp h'
  have hkept : ∀ m : EmailMessage Digest, (if p m then f m else m).direction = m.direction ∧
      (if p m then f m else m).conversationId = m.conversationId := by
    intro m
    split
    · exact ⟨hdirection m, hconversation m⟩
    · exact ⟨rfl, rfl⟩
  refine
    { ledger := hledger.symm
      states := fun _ => rfl
      assigned := fun emailId c => ⟨?_, ?_⟩
      unsent := fun hunsent m' hm' hpending => ?_
      sound := hsound }
  · rintro ⟨m', hm', hout, hc, he⟩
    obtain ⟨m, hm, rfl⟩ := hmem m' hm'
    exact ⟨m, hm, (hkept m).1 ▸ hout, (hkept m).2 ▸ hc, hrecorded m ▸ he⟩
  · rintro ⟨m, hm, hout, hc, he⟩
    have hm' : (if p m then f m else m) ∈ db.messages.update p f keep :=
      Table.mem_update.mpr ⟨m, hm, rfl⟩
    exact ⟨_, hm', (hkept m).1.trans hout, (hkept m).2.trans hc, (hrecorded m).trans he⟩
  · obtain ⟨m, hm, rfl⟩ := hmem m' hm'
    split at hpending
    · exact absurd hpending (hstate m)
    next hp =>
      rw [if_neg hp]
      exact hunsent m hm hpending

/-- The action terminates the live conversations of the projected emails that failed last. -/
def Reported (a : DeliveryAction Digest) (db db' : Database Digest) : Prop :=
  ∃ db₁, a.Recorded db db₁ ∧
    FailureReport (fun c => ∃ emailId ∈ a.emails db, FailedLast (a.ledger db) emailId ∧
      a.Assigns db emailId c)
      db₁ db'

theorem Recorded.reported {a : DeliveryAction Digest} {db db₁ db' : Database Digest}
    (h : a.Recorded db db₁)
    (hreport : FailureReport (fun c => ∃ emailId ∈ a.emails db,
      FailedLast db₁.webhookEvents.rows emailId ∧ db₁.AcceptedIn emailId c) db₁ db') :
        a.Reported db db' := by
  refine ⟨db₁, h, hreport.congr fun c => ?_⟩
  rw [h.ledger]
  simp only [h.assigned]

theorem reported_webhook {config : Config} {now : Time} {svixId eventType emailId : JsString}
    {eventCreatedAt : Time} {deliveryDetail : Option JsString} {db db' : Database Digest}
    (hsound : db.Sound) {u : Unit}
    (h : recordDeliveryWebhook config now svixId eventType emailId eventCreatedAt
      deliveryDetail db = .ok (u, db')) :
    (webhook now svixId eventType emailId eventCreatedAt deliveryDetail).Reported db db' := by
  obtain ⟨_, _, hget, h⟩ := bind_eq_ok.mp h
  obtain ⟨rfl, rfl⟩ := get_eq_ok.mp hget
  cases hknown : db.webhookEvents.get? svixId with
  | some existing =>
      rw [hknown] at h
      have hemails : (webhook now svixId eventType emailId eventCreatedAt deliveryDetail :
          DeliveryAction Digest).emails db = [existing.emailId] := by
        rw [emails, hknown]
        rfl
      refine Recorded.reported
        { ledger := ?_
          states := fun _ => rfl
          assigned := fun _ _ => Iff.rfl
          unsent := fun hunsent => hunsent
          sound := hsound } ?_
      · rw [ledger, hknown]
        rfl
      rw [hemails]
      exact (failureReport_project hsound.resendEmailId h).congr fun c => by simp
  | none =>
      rw [hknown] at h
      obtain ⟨_, db₁, hcreate, h⟩ := bind_eq_ok.mp h
      have hsound₁ :=
        ((@minor_createWebhookEvent Digest (fun x => x) _ _ _ _ _ _) hcreate).keeps hsound
      obtain ⟨_, _, hget, hcreate⟩ := bind_eq_ok.mp hcreate
      obtain ⟨rfl, rfl⟩ := get_eq_ok.mp hget
      rw [hknown, Option.isSome_none, if_neg (by simp)] at hcreate
      obtain ⟨id, db₂, hid, hinsert⟩ := bind_eq_ok.mp hcreate
      obtain ⟨rfl, rfl⟩ := freshId_eq_ok.mp hid
      obtain ⟨table, htable, rfl⟩ := insertRow_eq_ok.mp hinsert
      have hemails : (webhook now svixId eventType emailId eventCreatedAt deliveryDetail :
          DeliveryAction Digest).emails db = [emailId] := by
        rw [emails, hknown]
        rfl
      refine Recorded.reported ?_
        ((failureReport_project hsound₁.resendEmailId h).congr fun c => ?_)
      · refine
          { ledger := ?_
            states := fun _ => rfl
            assigned := fun _ _ => Iff.rfl
            unsent := fun hunsent => hunsent
            sound := hsound₁ }
        rw [ledger, hknown]
        exact Table.insert?_rows htable
      · simp [hemails]

theorem reported_sent {config : Config} {messageId : Uuid} {resendEmailId : JsString}
    {db db' : Database Digest} (hsound : db.Sound) {m : EmailMessage Digest}
    (h : recordSent config messageId resendEmailId db = .ok (m, db')) :
    (sent messageId resendEmailId).Reported db db' := by
  obtain ⟨_, db₁, hupdate, h⟩ := bind_eq_ok.mp h
  have hsound₁ : db₁.Sound := by
    refine (minor_updateMessage (?_ : ∀ m, _) hupdate : Lawful (fun x => x) _ _ _).keeps hsound
    exact fun _ => rfl
  obtain ⟨-, -, -, -, rfl⟩ := updateMessage_eq_ok.mp hupdate
  obtain ⟨_, db₂, hproject, h⟩ := bind_eq_ok.mp h
  obtain ⟨_, _, hget, h⟩ := bind_eq_ok.mp h
  obtain ⟨rfl, rfl⟩ := get_eq_ok.mp hget
  obtain ⟨-, rfl⟩ := orThrow_eq_ok.mp h
  refine Recorded.reported (.of_update rfl ?_ ?_ ?_ ?_ hsound₁) ?_
  · exact fun _ => rfl
  · exact fun _ => rfl
  · intro m
    rw [recorded]
    split <;> rfl
  · intro m hpending
    cases hpending
  · exact (failureReport_project hsound₁.resendEmailId hproject).congr fun c => by simp [emails]

/-- The update of an acceptance, once the provider identifiers are found to be unique. -/
theorem sound_acceptMessages {db db' : Database Digest} (hsound : db.Sound)
    {p : EmailMessage Digest → Bool} {f : EmailMessage Digest → EmailMessage Digest}
    {keep : ∀ m, (f m).id = m.id} {n : ℕ} (hupdate : updateMessages p f keep db = .ok (n, db'))
    (hunique : decide (db'.messages.rows.filterMap EmailMessage.resendEmailId).Nodup = true)
    (hview : ∀ m, (f m).threadView = m.threadView)
    (hkey : ∀ m, (f m).idempotencyKey = m.idempotencyKey)
    (hshape : ∀ m, m.kindShape = true → (f m).kindShape = true) : db'.Sound := by
  have hminor := @minor_acceptMessages Digest (fun x => x) Unit p f keep (fun _ => pure ())
    hview hkey hshape
    fun _ => .pure ()
  have hrun : (updateMessages p f keep >>= fun _ => get >>= fun db : Database Digest =>
      Tx.ensure (decide (db.messages.rows.filterMap EmailMessage.resendEmailId).Nodup)
        TxError.uniqueViolation >>=
        fun _ => (pure () : Transaction Digest Unit)) db = .ok ((), db') :=
    bind_eq_ok.mpr ⟨n, db', hupdate, bind_eq_ok.mpr ⟨db', db', rfl, bind_eq_ok.mpr
      ⟨(), db', ensure_eq_ok.mpr ⟨hunique, rfl⟩, rfl⟩⟩⟩
  exact (hminor hrun).keeps hsound

/-- An acceptance of a queue lane: the update, the unique column, and the projections. -/
theorem reported_acceptMessages {a : DeliveryAction Digest} {db db' : Database Digest}
    (hsound : db.Sound) {p : EmailMessage Digest → Bool}
    {f : EmailMessage Digest → EmailMessage Digest} {keep : ∀ m, (f m).id = m.id}
    {rest : ℕ → Transaction Digest Unit} {u : Unit}
    (h : (do
      let updated ← updateMessages p f keep
      let db ← get
      Tx.ensure (decide (db.messages.rows.filterMap EmailMessage.resendEmailId).Nodup)
        .uniqueViolation
      rest updated : Transaction Digest Unit) db = .ok (u, db'))
    (hrest : ∀ n db₁, db₁.Sound → rest n db₁ = .ok (u, db') → FailureReport
      (fun c => ∃ emailId ∈ a.emails db, FailedLast db₁.webhookEvents.rows emailId ∧
        db₁.AcceptedIn emailId c) db₁ db') (hledger : a.ledger db = db.webhookEvents.rows)
    (hstate : ∀ m, (f m).state = .accepted)
    (hrecorded : ∀ m, (if p m then f m else m).resendEmailId = a.recorded m)
    (hview : ∀ m, (f m).threadView = m.threadView)
    (hkey : ∀ m, (f m).idempotencyKey = m.idempotencyKey)
    (hshape : ∀ m, m.kindShape = true → (f m).kindShape = true) : a.Reported db db' := by
  obtain ⟨n, db₁, hupdate, h⟩ := bind_eq_ok.mp h
  obtain ⟨_, _, hget, h⟩ := bind_eq_ok.mp h
  obtain ⟨rfl, rfl⟩ := get_eq_ok.mp hget
  obtain ⟨_, _, hunique, h⟩ := bind_eq_ok.mp h
  have hsound₁ : db₁.Sound :=
    sound_acceptMessages hsound hupdate (ensure_eq_ok.mp hunique).1 hview hkey hshape
  obtain ⟨-, rfl⟩ := ensure_eq_ok.mp hunique
  have hreport := hrest n db₁ hsound₁ h
  obtain ⟨-, rfl⟩ := updateMessages_eq_ok.mp hupdate
  refine Recorded.reported (.of_update hledger ?_ ?_ hrecorded ?_ hsound₁) hreport
  · exact fun m => congrArg ThreadView.direction (hview m)
  · exact fun m => congrArg ThreadView.conversationId (hview m)
  · intro m
    rw [hstate]
    decide

theorem reported_entry {config : Config} {claimed : ClaimedEntry Digest} {resendEmailId : JsString}
    {db db' : Database Digest} (hsound : db.Sound) {u : Unit}
    (h : acceptEntry config claimed resendEmailId db = .ok (u, db')) :
    (entry claimed resendEmailId).Reported db db' := by
  obtain ⟨_, _, htexts, h⟩ := bind_eq_ok.mp h
  obtain ⟨-, rfl⟩ := checkTexts_eq_ok.mp htexts
  refine reported_acceptMessages hsound h (fun n db₁ hsound₁ h => ?_) rfl (fun _ => rfl)
    (fun m => ?_) (fun _ => rfl) (fun _ => rfl) fun m hm => ?_
  · obtain ⟨_, _, hcount, h⟩ := bind_eq_ok.mp h
    obtain ⟨-, rfl⟩ := ensure_eq_ok.mp hcount
    obtain ⟨_, db₂, hproject, h⟩ := bind_eq_ok.mp h
    refine ((failureReport_project hsound₁.resendEmailId hproject).trans
      (failureReport_deleteOwnedEntry _ h)).congr fun c => ?_
    simp [emails]
  · rw [recorded]
    split <;> rfl
  · exact EmailMessage.kindShape_of_send hm rfl nofun rfl rfl rfl rfl rfl rfl rfl rfl

theorem reported_batch {config : Config} {claimed : ClaimedBatch Digest}
    {resendEmailIds : List JsString} {db db' : Database Digest} (hsound : db.Sound) {u : Unit}
    (h : finalizeAcceptedBatch config claimed resendEmailIds db = .ok (u, db')) :
    (batch claimed resendEmailIds).Reported db db' := by
  obtain ⟨_, _, howner, h⟩ := bind_eq_ok.mp h
  obtain ⟨_, _, hget, howner⟩ := bind_eq_ok.mp howner
  obtain ⟨rfl, rfl⟩ := get_eq_ok.mp hget
  obtain ⟨-, rfl⟩ := ensure_eq_ok.mp howner
  obtain ⟨_, _, hsome, h⟩ := bind_eq_ok.mp h
  obtain ⟨-, rfl⟩ := ensure_eq_ok.mp hsome
  obtain ⟨_, _, htexts, h⟩ := bind_eq_ok.mp h
  obtain ⟨-, rfl⟩ := checkTexts_eq_ok.mp htexts
  refine reported_acceptMessages hsound h (fun n db₁ hsound₁ h => ?_) rfl (fun _ => rfl)
    (fun m => ?_) (fun _ => rfl) (fun _ => rfl) fun m hm => ?_
  · obtain ⟨_, _, hcount, h⟩ := bind_eq_ok.mp h
    obtain ⟨-, rfl⟩ := ensure_eq_ok.mp hcount
    obtain ⟨_, db₂, hproject, h⟩ := bind_eq_ok.mp h
    refine ((failureReport_reconcileAll hsound₁ hproject).trans
      (failureReport_deleteOwnedBatch _ h)).congr fun c => ?_
    simp [emails]
  · rw [recorded]
    split <;> rfl
  · exact EmailMessage.kindShape_of_send hm rfl nofun rfl rfl rfl rfl rfl rfl rfl rfl

/-- A step commits its reports or changes nothing. -/
theorem step_reported {config : Config} {a : DeliveryAction Digest} {db db' : Database Digest}
    (hsound : db.Sound) (hstep : a.step config db = some db') : db' = db ∨ a.Reported db db' := by
  have hexecute : ∀ {α : Type} {x : Transaction Digest α},
      (∀ r s, x db = .ok (r, s) → a.Reported db s) →
      (Tx.execute x db).2 = db ∨ a.Reported db (Tx.execute x db).2 := by
    intro α x hx
    cases hrun : x db with
    | error e =>
        rw [Tx.execute, hrun]
        exact .inl rfl
    | ok r =>
        obtain ⟨r, s⟩ := r
        rw [execute_of_ok hrun]
        exact .inr (hx r s hrun)
  cases a with
  | webhook now svixId eventType emailId eventCreatedAt deliveryDetail =>
      rw [step, Option.some.injEq] at hstep
      subst hstep
      exact hexecute fun _ _ => reported_webhook hsound
  | sent messageId resendEmailId =>
      rw [step] at hstep
      split at hstep
      · rw [Option.some.injEq] at hstep
        subst hstep
        exact hexecute fun _ _ => reported_sent hsound
      · cases hstep
  | entry claimed resendEmailId =>
      rw [step, Option.some.injEq] at hstep
      subst hstep
      exact hexecute fun _ _ => reported_entry hsound
  | batch claimed resendEmailIds =>
      rw [step, Option.some.injEq] at hstep
      subst hstep
      exact hexecute fun _ _ => reported_batch hsound

theorem step_sound {config : Config} {a : DeliveryAction Digest} {db db' : Database Digest}
    (hsound : db.Sound) (hstep : a.step config db = some db') : db'.Sound := by
  cases a with
  | webhook now svixId eventType emailId eventCreatedAt deliveryDetail =>
      rw [step, Option.some.injEq] at hstep
      subst hstep
      exact (Preserves.execute (@minor_recordDeliveryWebhook Digest (fun x => x) _ _ _ _ _ _ _)
        db).keeps hsound
  | sent messageId resendEmailId =>
      rw [step] at hstep
      split at hstep
      · rw [Option.some.injEq] at hstep
        subst hstep
        exact (Preserves.execute (@minor_recordSent Digest (fun x => x) _ _ _) db).keeps hsound
      · cases hstep
  | entry claimed resendEmailId =>
      rw [step, Option.some.injEq] at hstep
      subst hstep
      have hminor :=
        @minor_endEntry Digest (fun x => x) config 0 claimed (.accept resendEmailId) trivial
      exact (Preserves.execute hminor db).keeps hsound
  | batch claimed resendEmailIds =>
      rw [step, Option.some.injEq] at hstep
      subst hstep
      exact (Preserves.execute
        (@minor_finalizeBatch Digest (fun x => x) config 0 claimed (.accept resendEmailIds))
        db).keeps hsound

end DeliveryAction

/-! ### Runs -/

theorem Database.terminatedByFailure_iff {db : Database Digest} : db.TerminatedByFailure ↔
    ∀ c, (db.state? c).isSome = true → (db.state? c = some .terminated ↔ db.Condemned c) := by
  constructor
  · intro h c hsome
    obtain ⟨state, hstate⟩ := Option.isSome_iff_exists.mp hsome
    obtain ⟨row, hrow, rfl⟩ := Option.map_eq_some_iff.mp hstate
    obtain ⟨hmem, rfl⟩ := Table.get?_eq_some.mp hrow
    rw [hstate, Option.some.injEq]
    exact h row hmem
  · intro h row hmem
    have hstate : db.state? row.id = some row.state := by
      rw [Database.state?, Table.get?_eq_some.mpr ⟨hmem, rfl⟩]
      rfl
    have hiff := h row.id (by rw [hstate]; rfl)
    rwa [hstate, Option.some.injEq] at hiff

namespace DeliveryAction

theorem decisive_iff {db : Database Digest} {a : DeliveryAction Digest} : a.Decisive db ↔
    ∀ c, (db.state? c).isSome = true → db.state? c ≠ some .terminated →
      (∃ emailId ∈ a.emails db, HardFailure (a.ledger db) emailId ∧ a.Assigns db emailId c) →
        ∃ emailId ∈ a.emails db, FailedLast (a.ledger db) emailId ∧ a.Assigns db emailId c := by
  constructor
  · intro h c hsome hlive
    obtain ⟨state, hstate⟩ := Option.isSome_iff_exists.mp hsome
    obtain ⟨row, hrow, rfl⟩ := Option.map_eq_some_iff.mp hstate
    obtain ⟨hmem, rfl⟩ := Table.get?_eq_some.mp hrow
    rw [hstate, ne_eq, Option.some.injEq] at hlive
    exact h row hmem hlive
  · intro h row hmem hlive
    have hstate : db.state? row.id = some row.state := by
      rw [Database.state?, Table.get?_eq_some.mpr ⟨hmem, rfl⟩]
      rfl
    exact h row.id (by rw [hstate]; rfl) (by rw [hstate]; simpa using hlive)

/-- The hard failures that a committed action adds are those of the emails that it projects. -/
theorem Recorded.condemned_iff {config : Config} {a : DeliveryAction Digest}
    {db db₁ db' : Database Digest} (h : a.Recorded db db₁) (hunsent : db.Unsent)
    (hstep : a.step config db = some db') (c : Uuid) :
    db₁.Condemned c ↔ db.Condemned c ∨
      ∃ emailId ∈ a.emails db, HardFailure (a.ledger db) emailId ∧ a.Assigns db emailId c := by
  rw [Database.Condemned, h.ledger]
  constructor
  · rintro ⟨emailId, haccepted, hfailure⟩
    have hassigns := (h.assigned emailId c).mp haccepted
    by_cases hemail : emailId ∈ a.emails db
    · exact .inr ⟨emailId, hemail, hfailure, hassigns⟩
    · obtain ⟨m, hm, hout, hc, hrecorded⟩ := hassigns
      obtain ⟨e, he, rfl, hhard⟩ := hfailure
      have hkept := (recorded_cases db hrecorded).resolve_right hemail
      have hknown := (mem_ledger he).resolve_right hemail
      exact .inl ⟨e.emailId, ⟨m, hm, hout, hc, hkept⟩, e, hknown, rfl, hhard⟩
  · rintro (⟨emailId, ⟨m, hm, hout, hc, he⟩, e, hknown, hid, hhard⟩ |
      ⟨emailId, -, hfailure, hassigns⟩)
    · refine ⟨emailId, (h.assigned emailId c).mpr ⟨m, hm, hout, hc, ?_⟩, e,
        mem_ledger_of_mem a hknown, hid, hhard⟩
      exact recorded_of_some hunsent hstep hm he
    · exact ⟨emailId, (h.assigned emailId c).mpr hassigns, hfailure⟩

/-- After a committed action exactly the failed conversations are terminated, if and only if the
action was decisive. -/
theorem Reported.terminatedByFailure_iff {config : Config} {a : DeliveryAction Digest}
    {db db' : Database Digest} (h : a.Reported db db') (hunsent : db.Unsent)
    (hstep : a.step config db = some db') (hsettled : db.TerminatedByFailure) :
    db'.TerminatedByFailure ↔ a.Decisive db := by
  obtain ⟨db₁, hrecorded, hreport⟩ := h
  rw [Database.terminatedByFailure_iff] at hsettled ⊢
  rw [decisive_iff]
  have hcondemned : ∀ c, db'.Condemned c ↔ db.Condemned c ∨
      ∃ emailId ∈ a.emails db, HardFailure (a.ledger db) emailId ∧ a.Assigns db emailId c := by
    intro c
    rw [← hrecorded.condemned_iff hunsent hstep, Database.Condemned, Database.Condemned,
      hreport.ledger]
    simp only [hreport.acceptedIn]
  have hstored : ∀ c, (db'.state? c).isSome = (db.state? c).isSome := fun c => by
    rw [hreport.stored, hrecorded.states]
  have hterminated := hreport.terminated
  simp only [hrecorded.states] at hterminated
  constructor
  · intro hafter c hsome hlive hfailure
    have hnow := (hafter c ((hstored c).trans hsome)).mpr ((hcondemned c).mpr (.inr hfailure))
    exact (((hterminated c).mp hnow).resolve_left hlive).2
  · intro hdecisive c hsome
    rw [hstored] at hsome
    rw [hterminated, hcondemned, ← hsettled c hsome]
    constructor
    · rintro (hbefore | ⟨-, emailId, hemail, hlast, hassigns⟩)
      · exact .inl hbefore
      · exact .inr ⟨emailId, hemail, hlast.hardFailure, hassigns⟩
    · rintro (hbefore | hfailure)
      · exact .inl hbefore
      · by_cases hlive : db.state? c = some .terminated
        · exact .inl hlive
        · exact .inr ⟨hsome, hdecisive c hsome hlive hfailure⟩

end DeliveryAction

/-- Before the first acceptance: no email was accepted and no conversation is terminated. -/
structure Database.Unaccepted (db : Database Digest) : Prop where
  sound : db.Sound
  unsent : db.Unsent
  outbound : ∀ m ∈ db.messages, m.direction = .outbound → m.resendEmailId = none
  live : ∀ c ∈ db.conversations, c.state ≠ .terminated

theorem Database.Unaccepted.terminatedByFailure {db : Database Digest} (h : db.Unaccepted) :
    db.TerminatedByFailure := by
  intro c hc
  refine iff_of_false (h.live c hc) ?_
  rintro ⟨emailId, ⟨m, hm, hout, -, he⟩, -⟩
  rw [h.outbound m hm hout] at he
  cases he

/-- In every order of webhooks and acceptances that are decisive, the terminated conversations are
those whose ledger has a hard failure. -/
theorem Run.terminated_iff_failed {config : Config} {db db' : Database Digest}
    (hstart : db.Unaccepted)
    (hrun : Run (DeliveryAction.step config) DeliveryAction.Decisive db db') :
    db'.TerminatedByFailure := by
  have hinvariant : db'.Sound ∧ db'.Unsent ∧ db'.TerminatedByFailure := by
    refine hrun.invariant (I := fun db => db.Sound ∧ db.Unsent ∧ db.TerminatedByFailure)
      ⟨hstart.sound, hstart.unsent, hstart.terminatedByFailure⟩ ?_
    rintro s a t ⟨hsound, hunsent, hsettled⟩ hdecisive hstep
    rcases DeliveryAction.step_reported hsound hstep with rfl | hreported
    · exact ⟨hsound, hunsent, hsettled⟩
    · refine ⟨DeliveryAction.step_sound hsound hstep, ?_, ?_⟩
      · obtain ⟨db₁, hrecorded, hreport⟩ := hreported
        exact hreport.unsent (hrecorded.unsent hunsent)
      · exact (hreported.terminatedByFailure_iff hunsent hstep hsettled).mpr hdecisive
  exact hinvariant.2.2

namespace Reference

/-- A new conversation whose opening email is about to be sent. -/
def pendingOpening : List (Action SendRequest) :=
  grants ++ submit 1 (opening false (js "x")) (js "k")

def bounced : DeliveryAction SendRequest := .webhook 5 (js "1") (js "email.bounced") (js "e") 1 none

def delivered : DeliveryAction SendRequest :=
  .webhook 6 (js "2") (js "email.delivered") (js "e") 2 none

/-- The acceptance of the opening email. -/
def openingSent : DeliveryAction SendRequest := .sent 2 (js "e")

/-- An outbound message of a live conversation was accepted as `e`, and the ledger has a hard
failure of it. -/
def missed (db : Database SendRequest) : Bool :=
  decide (HardFailure db.webhookEvents.rows (js "e")) && db.conversations.rows.any fun c =>
    c.state != .terminated && db.messages.rows.any fun m =>
      decide (m.direction = .outbound ∧ m.conversationId = some c.id ∧
        m.resendEmailId = some (js "e"))

theorem missed_spec {db : Database SendRequest} (h : missed db = true) :
    ¬db.TerminatedByFailure := by
  rw [missed, Bool.and_eq_true, decide_eq_true_eq, List.any_eq_true] at h
  obtain ⟨hfailure, c, hc, hany⟩ := h
  rw [Bool.and_eq_true, bne_iff_ne, List.any_eq_true] at hany
  obtain ⟨hlive, m, hm, haccepted⟩ := hany
  exact fun hterminated =>
    hlive ((hterminated c hc).mpr ⟨js "e", ⟨m, hm, of_decide_eq_true haccepted⟩, hfailure⟩)

end Reference

/-- A bounce before a delivery does not terminate the conversation when both arrive before the
acceptance. -/
theorem failure_overtaken : ∃ db db' : Database SendRequest, db.Unaccepted ∧
    Run (DeliveryAction.step .reference) Always db db' ∧ ¬db'.TerminatedByFailure := by
  obtain ⟨s, hs, ⟨hunsent, hout, hlive⟩, hmissed⟩ : ∃ s, Run (step .reference) Always .reference s ∧
      ((∀ m ∈ s.db.messages.rows, m.state = .pending → m.resendEmailId = none) ∧
        (∀ m ∈ s.db.messages.rows, m.direction = .outbound → m.resendEmailId = none) ∧
        ∀ c ∈ s.db.conversations.rows, c.state ≠ .terminated) ∧
      ((exec (DeliveryAction.step .reference) Always s.db
        [Reference.bounced, Reference.delivered, Reference.openingSent]).any
          Reference.missed) = true :=
    Run.exists_of_exec Reference.pendingOpening (by decide +kernel)
  cases hexec : exec (DeliveryAction.step .reference) Always s.db
      [Reference.bounced, Reference.delivered, Reference.openingSent] with
  | none =>
      rw [hexec] at hmissed
      cases hmissed
  | some db' =>
      rw [hexec] at hmissed
      exact ⟨s.db, db', ⟨(Reachable.of_run hs).threaded.sound, hunsent, hout, hlive⟩,
        Run.of_exec hexec, Reference.missed_spec hmissed⟩

/-- An early bounce and the acceptance after it. -/
theorem terminated_iff_failed_reference : ∃ db db' : Database SendRequest, db.Unaccepted ∧
    db'.TerminatedByFailure ∧ ∃ c ∈ db'.conversations.rows, c.state = .terminated := by
  obtain ⟨s, hs, ⟨hunsent, hout, hlive⟩, hterminated⟩ : ∃ s,
      Run (step .reference) Always .reference s ∧
      ((∀ m ∈ s.db.messages.rows, m.state = .pending → m.resendEmailId = none) ∧
        (∀ m ∈ s.db.messages.rows, m.direction = .outbound → m.resendEmailId = none) ∧
        ∀ c ∈ s.db.conversations.rows, c.state ≠ .terminated) ∧
      ((exec (DeliveryAction.step .reference) DeliveryAction.Decisive s.db
        [Reference.bounced, Reference.openingSent, Reference.delivered]).any fun db' =>
          decide (∃ c ∈ db'.conversations.rows, c.state = .terminated)) = true :=
    Run.exists_of_exec Reference.pendingOpening (by decide +kernel)
  cases hexec : exec (DeliveryAction.step .reference) DeliveryAction.Decisive s.db
      [Reference.bounced, Reference.openingSent, Reference.delivered] with
  | none =>
      rw [hexec] at hterminated
      cases hterminated
  | some db' =>
      rw [hexec] at hterminated
      have hstart : s.db.Unaccepted := ⟨(Reachable.of_run hs).threaded.sound, hunsent, hout, hlive⟩
      exact ⟨s.db, db', hstart, Run.terminated_iff_failed hstart (Foundation.Run.of_exec hexec),
        of_decide_eq_true hterminated⟩

end ResendConversation
