import Mathlib.Data.List.Pairwise
import ResendConversation.Constraints
import ResendConversation.System
import ResendConversation.Threads

/-! # Minor transactions

The transactions that threading hardly notices: they draw identifiers and at most let a state
turn by itself.  Those are the event log, delivery reports, the lanes and their finalization,
attachments and tombstones, the webhook ledger and the allowlist.  Each is `Minor`: explained
by minor events, and it keeps a database sound. -/

namespace ResendConversation

open Foundation Tx

variable {Digest : Type}

/-- The databases around a transaction: explained by events of the kind `P`, and still sound. -/
structure Lawful (lower : JsString → JsString) (P : ThreadEvent → Prop) (db db' : Database Digest) :
    Prop where
  woven : Woven lower P db db'
  keeps : Keeps db db'

section
variable {lower : JsString → JsString} {P Q : ThreadEvent → Prop}

instance : Std.Refl (@Lawful Digest lower P) where
  refl db := ⟨Std.Refl.refl db, fun h => h⟩

instance : IsTrans (Database Digest) (Lawful lower P) where
  trans _ _ _ h h' := ⟨h.woven.trans h'.woven, fun hs => h'.keeps (h.keeps hs)⟩

theorem Lawful.trans {a b c : Database Digest} (h : Lawful lower P a b) (h' : Lawful lower P b c) :
    Lawful lower P a c := IsTrans.trans _ _ _ h h'

theorem Lawful.mono {db db' : Database Digest} (h : Lawful lower P db db') (hPQ : ∀ e, P e → Q e) :
    Lawful lower Q db db' := ⟨h.woven.mono hPQ, h.keeps⟩

end

/-- Events that may accompany any transaction. -/
def ThreadEvent.IsMinor : ThreadEvent → Prop
  | .drawn _ | .turned _ _ => True
  | _ => False

abbrev Minor {α : Type} (lower : JsString → JsString) (x : Transaction Digest α) : Prop :=
  Preserves (Lawful lower ThreadEvent.IsMinor) x

variable {lower : JsString → JsString}

/-- The databases around a transaction that threading does not notice. -/
structure Still (db db' : Database Digest) : Prop where
  nextId_le : db.nextId ≤ db'.nextId
  threads : db'.threads = { db.threads with nextId := db'.nextId }

instance : Std.Refl (@Still Digest) where
  refl _ := ⟨le_rfl, rfl⟩

instance : IsTrans (Database Digest) Still where
  trans _ _ _ h h' := ⟨h.nextId_le.trans h'.nextId_le, by rw [h'.threads, h.threads]⟩

theorem Still.of_eq {db db' : Database Digest} (h : db'.threads = db.threads) : Still db db' where
  nextId_le := (congrArg Threads.nextId h).ge
  threads := by
    rw [h]
    exact Threads.ext (congrArg Threads.nextId h).symm rfl rfl rfl

theorem Still.woven {db db' : Database Digest} (h : Still db db') :
    Woven lower ThreadEvent.IsMinor db db' :=
  .single (e := .drawn db'.nextId) trivial h.nextId_le h.threads

theorem Lawful.of_still {db db' : Database Digest} (hk : Keeps db db') (h : Still db db') :
    Lawful lower ThreadEvent.IsMinor db db' := ⟨h.woven, hk⟩

theorem Lawful.of_threads {db db' : Database Digest} (hk : Keeps db db')
    (hn : db.nextId ≤ db'.nextId) (h : db'.threads = { db.threads with nextId := db'.nextId }) :
    Lawful lower ThreadEvent.IsMinor db db' := .of_still hk ⟨hn, h⟩

/-- A statement on other tables. -/
theorem Lawful.of_eq {db db' : Database Digest} (hn : db.nextId ≤ db'.nextId)
    (hc : db'.conversations = db.conversations) (hm : db'.messages = db.messages)
    (ha : db'.routingAliases = db.routingAliases)
    (he : db'.conversationEvents = db.conversationEvents)
    (hd : db'.conversationEventDeliveries = db.conversationEventDeliveries)
    (hf : db'.attachments = db.attachments) : Lawful lower ThreadEvent.IsMinor db db' := by
  refine .of_threads (fun hs => hs.of_eq hn hc hm ha he hd (hf ▸ hs.attachments_le hn)) hn ?_
  simp only [Database.threads, hc, hm, ha]

/-! ### Statements -/

theorem still_freshId : Preserves Still (freshId : Transaction Digest Uuid) := by
  intro db id db' h
  obtain ⟨-, rfl⟩ := freshId_eq_ok.mp h
  exact ⟨Nat.le_succ _, rfl⟩

theorem minor_freshId : Minor lower (freshId : Transaction Digest Uuid) :=
  fun _ _ _ h => .of_still (keeps_freshId h) (still_freshId h)

theorem minor_insertRow {α κ : Type} [DecidableEq κ] {key : α → κ} {t : Database Digest → Table key}
    {put : Database Digest → Table key → Database Digest} {row : α}
    (h : ∀ db table, Lawful lower ThreadEvent.IsMinor db (put db table)) :
    Minor lower (insertRow t put row) := by
  intro db u db' hx
  obtain ⟨table, -, rfl⟩ := insertRow_eq_ok.mp hx
  exact h db table

/-- The threads after an update of messages. -/
theorem threads_updateMessages {db : Database Digest} {p : EmailMessage Digest → Bool}
    {f : EmailMessage Digest → EmailMessage Digest} {keep : ∀ m, (f m).id = m.id} :
    Database.threads { db with messages := db.messages.update p f keep } =
      { db.threads with
        messages := fun k => (db.messages.get? k).map fun m =>
          if p m then (f m).threadView else m.threadView } := by
  simp only [Database.threads, Table.get?_update, Option.map_map]
  congr 1
  funext k
  congr 1
  funext m
  simp only [Function.comp]
  split <;> rfl

theorem threads_updateMessages_of_view {db : Database Digest} {p : EmailMessage Digest → Bool}
    {f : EmailMessage Digest → EmailMessage Digest} {keep : ∀ m, (f m).id = m.id}
    (hview : ∀ m, (f m).threadView = m.threadView) :
    Database.threads { db with messages := db.messages.update p f keep } = db.threads := by
  rw [threads_updateMessages]
  simp only [hview, ite_self, Database.threads]

theorem minor_updateMessages {p : EmailMessage Digest → Bool}
    {f : EmailMessage Digest → EmailMessage Digest} {keep : ∀ m, (f m).id = m.id}
    (hview : ∀ m, (f m).threadView = m.threadView)
    (hk : Preserves Keeps (updateMessages p f keep)) : Minor lower (updateMessages p f keep) := by
  intro db n db' h
  have hk' := hk h
  obtain ⟨-, rfl⟩ := updateMessages_eq_ok.mp h
  exact ⟨.of_eq (threads_updateMessages_of_view hview), hk'⟩

theorem minor_updateMessage {id : Uuid} {f : EmailMessage Digest → EmailMessage Digest}
    {keep : ∀ m, (f m).id = m.id} (hview : ∀ m, (f m).threadView = m.threadView) :
    Minor lower (updateMessage id f keep) := by
  intro db r db' h
  have hk := keeps_updateMessage h
  obtain ⟨-, -, -, -, rfl⟩ := updateMessage_eq_ok.mp h
  exact ⟨.of_eq (threads_updateMessages_of_view hview), hk⟩

/-- The threads after an update of conversations. -/
theorem threads_updateConversations {db : Database Digest} {p : EmailConversation → Bool}
    {f : EmailConversation → EmailConversation} {keep : ∀ c, (f c).id = c.id} :
    Database.threads { db with conversations := db.conversations.update p f keep } =
      { db.threads with
        conversations := fun k => (db.conversations.get? k).map fun c =>
          if p c then (f c).view else c.view } := by
  simp only [Database.threads, Table.get?_update, Option.map_map]
  congr 1
  funext k
  congr 1
  funext c
  simp only [Function.comp]
  split <;> rfl

/-- The threads after an update of one conversation. -/
theorem threads_updateConversation {db : Database Digest} {id : Uuid}
    {f : EmailConversation → EmailConversation} {keep : ∀ c, (f c).id = c.id}
    {g : ConversationView → ConversationView} (hg : ∀ c, (f c).view = g c.view) :
    Database.threads
    { db with conversations := db.conversations.update (fun c => c.id == id) f keep } =
      db.threads.onConversation id g := by
  rw [threads_updateConversations]
  simp only [Threads.onConversation, Database.threads]
  congr 1
  funext k
  cases hk : db.conversations.get? k with
  | none => simp
  | some c =>
      have hid := Table.key_of_get? hk
      simp only [Option.map_some, hid]
      by_cases h : k = id <;> simp [h, hg]

theorem still_updateConversation {id : Uuid} {f : EmailConversation → EmailConversation}
    {keep : ∀ c, (f c).id = c.id} (hview : ∀ c, (f c).view = c.view) :
    Preserves Still (updateConversation id f keep : Transaction Digest _) := by
  intro db r db' h
  obtain ⟨-, rfl⟩ := updateConversation_eq_ok h
  refine .of_eq ?_
  rw [threads_updateConversations]
  simp only [hview, ite_self, Database.threads]

theorem still_insertRow {α κ : Type} [DecidableEq κ] {key : α → κ} {t : Database Digest → Table key}
    {put : Database Digest → Table key → Database Digest} {row : α}
    (h : ∀ db table, (put db table).threads = db.threads) :
    Preserves Still (insertRow t put row) := by
  intro db u db' hx
  obtain ⟨table, -, rfl⟩ := insertRow_eq_ok.mp hx
  exact .of_eq (h db table)

theorem still_appendConversationEvent (config : Config) (input : ConversationEventInput) :
    Preserves Still (appendConversationEvent config input : Transaction Digest _) := by
  unfold appendConversationEvent
  split
  · exact .bind (still_updateConversation fun _ => rfl) fun _ => .bind .get fun _ =>
      .bind (.ensure _ _) fun _ => .bind still_freshId fun _ =>
        .bind (still_insertRow fun _ _ => rfl) fun _ =>
          .bind (still_insertRow fun _ _ => rfl) fun _ => .pure _
  · exact .pure _

theorem minor_appendConversationEvent (config : Config) (input : ConversationEventInput) :
    Minor lower (appendConversationEvent config input : Transaction Digest _) :=
  fun _ _ _ h => .of_still (keeps_appendConversationEvent config input h)
    (still_appendConversationEvent config input h)

/-- A guarded transition of the state of one conversation. -/
theorem minor_turn {id : Uuid} {state : ConversationState} {changedAt : Time}
    {p : EmailConversation → Bool} (hp : ∀ c, p c = true → c.id = id ∧ c.state ≠ .terminated) :
    Minor lower (updateConversations p
      (fun c => { c with state := state, stateChangedAt := changedAt }) :
      Transaction Digest _) := by
  intro db n db' h
  have hk := keeps_updateConversations
    (f := fun c => { c with state := state, stateChangedAt := changedAt })
    (fun _ => ⟨rfl, rfl, rfl, rfl, rfl, rfl⟩) h
  have heq := updateConversations_eq_ok h
  refine ⟨?_, hk⟩
  rw [heq]
  have hview := @threads_updateConversations _ db p
    (fun c => { c with state := state, stateChangedAt := changedAt }) fun _ => rfl
  by_cases hex : ∃ c, db.conversations.get? id = some c ∧ p c = true
  · obtain ⟨c, hc, hpc⟩ := hex
    refine .single (e := .turned id state) trivial
      ⟨c.view, by simp [Database.threads, hc], (hp c hpc).2⟩ (hview.trans ?_)
    simp only [Threads.apply, Threads.onConversation, Database.threads]
    congr 1
    funext k
    split
    next hk =>
      rw [hk, hc]
      simp [hpc, EmailConversation.view]
    next hk =>
      cases hd : db.conversations.get? k with
      | none => rfl
      | some d =>
          have hpd : p d = false := by
            by_contra hcon
            exact hk ((Table.key_of_get? hd).symm.trans (hp d (by simpa using hcon)).1)
          simp [hpd]
  · refine .of_eq (hview.trans ?_)
    simp only [Database.threads]
    congr 1
    funext k
    cases hd : db.conversations.get? k with
    | none => rfl
    | some d =>
        have hpd : p d = false := by
          by_contra hcon
          have hpd : p d = true := by simpa using hcon
          exact hex ⟨d, by rw [← (hp d hpd).1, Table.key_of_get? hd, hd], hpd⟩
        simp [hpd]

theorem minor_applyAutomaticState (id : Uuid) (state : ConversationState) (changedAt : Time) :
    Minor lower (applyAutomaticState id state changedAt : Transaction Digest _) := by
  refine .bind (@minor_turn _ _ id _ _ _ fun c hc => ?_) fun _ => .pure _
  simp only [Bool.and_eq_true, beq_iff_eq, bne_iff_ne] at hc
  exact ⟨hc.1.1, hc.2⟩

theorem minor_markConversationTerminated (id : Uuid) (changedAt : Time) :
    Minor lower (markConversationTerminated id changedAt : Transaction Digest _) := by
  refine .bind (@minor_turn _ _ id _ _ _ fun c hc => ?_) fun _ => .pure _
  simpa using hc

/-! ### Delivery reports -/

theorem minor_reportDelivery (config : Config) (before : EmailMessage Digest) (id : Uuid)
    (state : EmailDeliveryState) (time : Time) :
    Minor lower (reportDelivery config before id state time) := by
  refine .bind .get fun db => ?_
  have hterminate : Minor lower (do
      let stateChanged ← markConversationTerminated id time
      if stateChanged then
        let _ ← appendConversationEvent config
          { conversationId := id
            type := .stateChanged
            occurredAt := time
            actor := .system
            cause := js "unreachable_delivery"
            state := some ((db.conversations.get? id).map EmailConversation.state, .terminated) }
        pure ()
      else pure () : Transaction Digest Unit) :=
    .bind (minor_markConversationTerminated _ _) fun _ =>
      .ite (.bind (minor_appendConversationEvent _ _) fun _ => .pure _) (.pure _)
  exact .ite (.bind (minor_appendConversationEvent _ _) fun _ => .ite hterminate (.pure _))
    (.ite hterminate (.pure _))

/-- An update of the delivery columns. -/
theorem minor_updateDelivery {p : EmailMessage Digest → Bool} {state : Option EmailDeliveryState}
    {detail : Option JsString} {at_ deliveredAt : Option Time} :
    Minor lower (updateMessages p fun m =>
      { m with
        deliveryState := state
        deliveryStateDetail := detail
        deliveryStateUpdatedAt := at_
        deliveredAt := deliveredAt }) :=
  minor_updateMessages (fun _ => rfl)
    (keeps_sendState (fun _ => .inl rfl) (fun _ => rfl) (fun _ => rfl)
    (fun _ => rfl) (fun _ => rfl) fun _ => rfl)

theorem minor_projectOutboundDeliveryState (config : Config) (resendEmailId : JsString) :
    Minor lower (projectOutboundDeliveryStateForResendEmail config resendEmailId :
      Transaction Digest _) := by
  refine .bind .get fun db => ?_
  dsimp only
  split
  · exact .pure _
  · refine .bind minor_updateDelivery fun _ => ?_
    split
    · exact .pure _
    · split
      · exact .pure _
      · exact minor_reportDelivery _ _ _ _ _

theorem minor_reconcileAll (config : Config) (ids : List JsString) :
    Minor lower (reconcileAll config ids : Transaction Digest _) := by
  induction ids with
  | nil => exact .pure _
  | cons id ids ih => exact .bind (minor_projectOutboundDeliveryState _ _) fun _ => ih

theorem minor_createWebhookEvent (now : Time) (svixId eventType emailId : JsString)
    (eventCreatedAt : Time) (deliveryDetail : Option JsString) :
    Minor lower (createWebhookEvent now svixId eventType emailId eventCreatedAt deliveryDetail :
      Transaction Digest _) := by
  refine .bind .get fun db =>
    .ite (.pure _) (.bind minor_freshId fun _ => minor_insertRow fun _ _ => ?_)
  exact .of_eq le_rfl rfl rfl rfl rfl rfl rfl

theorem minor_recordDeliveryWebhook (config : Config) (now : Time)
    (svixId eventType emailId : JsString) (eventCreatedAt : Time)
    (deliveryDetail : Option JsString) :
    Minor lower (recordDeliveryWebhook config now svixId eventType emailId eventCreatedAt
      deliveryDetail : Transaction Digest _) := by
  refine .bind .get fun db => ?_
  split
  · exact minor_projectOutboundDeliveryState _ _
  · exact .bind (minor_createWebhookEvent _ _ _ _ _ _) fun _ =>
      minor_projectOutboundDeliveryState _ _

/-! ### Sending -/

/-- A direct message stays one while its send state changes. -/
theorem kindShape_sendState {m : EmailMessage Digest} {state : EmailMessageState}
    (hs : state ≠ .received) (detail : Option JsString) (h : m.kindShape = true) :
    EmailMessage.kindShape { m with state := state, stateDetail := detail } = true :=
  EmailMessage.kindShape_of_send h rfl hs rfl rfl rfl rfl rfl rfl rfl rfl

theorem minor_updateState {p : EmailMessage Digest → Bool} {state : EmailMessageState}
    {detail : Option JsString} (hs : state ≠ .received) :
    Minor lower (updateMessages p fun m => { m with state := state, stateDetail := detail }) :=
  minor_updateMessages (fun _ => rfl)
    (keeps_sendState (fun _ => .inr (kindShape_sendState hs detail))
    (fun _ => rfl) (fun _ => rfl) (fun _ => rfl) (fun _ => rfl) fun _ => rfl)

theorem minor_recordSendError (messageId : Uuid) (error : SendError) :
    Minor lower (recordSendError messageId error : Transaction Digest _) :=
  minor_updateMessage fun _ => rfl

theorem minor_recordSent (config : Config) (messageId : Uuid) (resendEmailId : JsString) :
    Minor lower (recordSent config messageId resendEmailId : Transaction Digest _) :=
  .bind (minor_updateMessage fun _ => rfl) fun _ =>
    .bind (minor_projectOutboundDeliveryState _ _) fun _ => .bind .get fun _ => .orThrow _ _

theorem minor_expirePending (messageId : Uuid) :
    Minor lower (SendHandler.expirePending messageId : Transaction Digest _) :=
  minor_updateState (by decide)

/-! ### The lanes -/

theorem minor_claimTransaction (now : Time) (limit : ℕ) (locked : List Uuid) :
    Minor lower (claimTransaction now limit locked : Transaction Digest _) := by
  have hload : ∀ id, Minor lower (loadBatch id : Transaction Digest _) := fun id =>
    .bind .get fun _ => .bind (.orThrow _ _) fun _ => .pure _
  refine .bind minor_freshId fun token => .bind (.modify fun db => ?_) fun _ =>
    .bind .get fun db => ?_
  · exact .of_eq le_rfl rfl rfl rfl rfl rfl rfl
  · split
    · exact .bind (.modify fun db => .of_eq le_rfl rfl rfl rfl rfl rfl rfl) fun _ =>
        .bind (hload _) fun _ => .pure _
    · split
      · exact .pure _
      · refine .bind (.bind minor_freshId fun _ => .bind (minor_insertRow fun _ _ => ?_) fun _ =>
          .bind (.modify fun db => ?_) fun _ => .pure _) fun _ => .bind (hload _) fun _ => .pure _
        · exact .of_eq le_rfl rfl rfl rfl rfl rfl rfl
        · exact .of_eq le_rfl rfl rfl rfl rfl rfl rfl

theorem minor_assertLeaseOwner (batch : ClaimedBatch Digest) :
    Minor lower (assertLeaseOwner batch) :=
  .bind .get fun _ => .ensure _ _

theorem minor_deleteOwnedBatch (batch : ClaimedBatch Digest) :
    Minor lower (deleteOwnedBatch batch) :=
  .bind .get fun _ => .bind (.ensure _ _) fun _ =>
    .modify fun _ => .of_eq le_rfl rfl rfl rfl rfl rfl rfl

theorem minor_finalizeTerminalBatch (batch : ClaimedBatch Digest) {state : EmailMessageState}
    (detail : JsString) (hs : state ≠ .received) :
    Minor lower (finalizeTerminalBatch batch state detail) :=
  .bind (minor_assertLeaseOwner _) fun _ => .bind (.ensure _ _) fun _ =>
    .bind (minor_updateState hs) fun _ => minor_deleteOwnedBatch _

/-- A unique column of the rows of a table, stated of the list of its values. -/
theorem distinct_of_nodup {db : Database Digest}
    (h : (db.messages.rows.filterMap EmailMessage.resendEmailId).Nodup) :
    db.Distinct EmailMessage.resendEmailId := by
  intro m hm n hn hsome heq
  obtain ⟨v, hv⟩ := Option.isSome_iff_exists.mp hsome
  by_contra hne
  have hpair := List.pairwise_filterMap.mp h
  have : Std.Symm fun a a' : EmailMessage Digest => ∀ b, a.resendEmailId = some b →
      ∀ b', a'.resendEmailId = some b' → b ≠ b' :=
    ⟨fun _ _ hxy b hb b' hb' => (hxy b' hb' b hb).symm⟩
  exact hpair.forall hm hn hne v hv v (heq ▸ hv) rfl

/-- Messages are accepted; the unique provider identifier is checked after the update. -/
theorem minor_acceptMessages {α : Type} {p : EmailMessage Digest → Bool}
    {f : EmailMessage Digest → EmailMessage Digest} {keep : ∀ m, (f m).id = m.id}
    {rest : ℕ → Transaction Digest α} (hview : ∀ m, (f m).threadView = m.threadView)
    (hk : ∀ m, (f m).idempotencyKey = m.idempotencyKey)
    (hshape : ∀ m, m.kindShape = true → (f m).kindShape = true)
    (hrest : ∀ n, Minor lower (rest n)) :
    Minor lower (do
      let updated ← updateMessages p f keep
      let db ← get
      Tx.ensure (decide (db.messages.rows.filterMap EmailMessage.resendEmailId).Nodup)
        .uniqueViolation
      rest updated) := by
  intro db a db' h
  obtain ⟨n, db₁, h₁, h⟩ := bind_eq_ok.mp h
  obtain ⟨-, rfl⟩ := updateMessages_eq_ok.mp h₁
  obtain ⟨_, _, hget, h⟩ := bind_eq_ok.mp h
  obtain ⟨rfl, rfl⟩ := get_eq_ok.mp hget
  obtain ⟨_, _, hcheck, h⟩ := bind_eq_ok.mp h
  obtain ⟨hnodup, rfl⟩ := ensure_eq_ok.mp hcheck
  refine .trans ⟨.of_eq (threads_updateMessages_of_view hview), fun hs => ?_⟩ (hrest n h)
  have hc : ∀ m, (f m).conversationId = m.conversationId := fun m =>
    congrArg ThreadView.conversationId (hview m)
  have hp : ∀ m, (f m).parentMessageId = m.parentMessageId := fun m =>
    congrArg ThreadView.parentMessageId (hview m)
  exact hs.updateMessages (distinct_of_nodup (of_decide_eq_true hnodup))
    (fun m => congrArg ThreadView.internetMessageId (hview m)) hk
    (fun m hm _ c hmc => hs.placed m hm c (hc m ▸ hmc))
    (fun m hm _ q hmq => hs.parent m hm q (hp m ▸ hmq)) fun m hm _ => hshape m (hs.shape m hm)

theorem minor_finalizeBatch (config : Config) (now : Time) (batch : ClaimedBatch Digest)
    (decision : BatchDecision) : Minor lower (finalizeBatch config now batch decision) := by
  cases decision with
  | accept ids =>
      refine .bind (minor_assertLeaseOwner _) fun _ => .bind (.ensure _ _) fun _ =>
        .bind (.ensure _ _) fun _ =>
        minor_acceptMessages (fun _ => rfl) (fun _ => rfl) (fun m h => ?_) fun n =>
          .bind (.ensure _ _) fun _ => .bind (minor_reconcileAll _ _) fun _ =>
            minor_deleteOwnedBatch _
      exact EmailMessage.kindShape_of_send h rfl nofun rfl rfl rfl rfl rfl rfl rfl rfl
  | fail errorCode => exact minor_finalizeTerminalBatch _ _ (by decide)
  | indeterminate detail => exact minor_finalizeTerminalBatch _ _ (by decide)
  | retry errorCode =>
      exact .bind (.ensure _ _) fun _ => .bind .get fun _ => .bind (.ensure _ _) fun _ =>
        .modify fun _ => .of_eq le_rfl rfl rfl rfl rfl rfl rfl

theorem minor_claimEntry (now : Time) (locked : List Uuid) :
    Minor lower (claimEntry now locked : Transaction Digest _) := by
  refine .bind minor_freshId fun token => .bind (.modify fun db => ?_) fun _ =>
    .bind .get fun db => ?_
  · exact .of_eq le_rfl rfl rfl rfl rfl rfl rfl
  · split
    · exact .pure _
    · exact .bind (.modify fun db => .of_eq le_rfl rfl rfl rfl rfl rfl rfl) fun _ =>
        .bind (.orThrow _ _) fun _ => .pure _

theorem minor_deleteOwnedEntry (entry : ClaimedEntry Digest) :
    Minor lower (deleteOwnedEntry entry) :=
  .bind .get fun _ => .bind (.ensure _ _) fun _ =>
    .modify fun _ => .of_eq le_rfl rfl rfl rfl rfl rfl rfl

/-- The states that a worker of the attachment lane finalizes a message with. -/
def EntryDecision.Sends : EntryDecision → Prop
  | .finalize state _ => state ≠ .received
  | _ => True

theorem minor_endEntry (config : Config) (now : Time) (entry : ClaimedEntry Digest)
    {decision : EntryDecision} (hd : decision.Sends) :
    Minor lower (endEntry config now entry decision) := by
  cases decision with
  | accept id =>
      refine .bind (.ensure _ _) fun _ =>
        minor_acceptMessages (fun _ => rfl) (fun _ => rfl) (fun m h => ?_) fun n =>
          .bind (.ensure _ _) fun _ => .bind (minor_projectOutboundDeliveryState _ _) fun _ =>
            minor_deleteOwnedEntry _
      exact EmailMessage.kindShape_of_send h rfl nofun rfl rfl rfl rfl rfl rfl rfl rfl
  | finalize state detail =>
      exact .bind (.ensure _ _) fun _ => .bind (minor_updateState hd) fun _ =>
        minor_deleteOwnedEntry _
  | retry errorCode =>
      exact .bind (.ensure _ _) fun _ => .bind .get fun _ => .bind (.ensure _ _) fun _ =>
        .modify fun _ => .of_eq le_rfl rfl rfl rfl rfl rfl rfl

/-! ### Files -/

theorem minor_updateAttachments {p : EmailAttachment → Bool} {f : EmailAttachment → EmailAttachment}
    {keep : ∀ a, (f a).id = a.id} (hf : ∀ a, (f a).storageKey = a.storageKey) :
    Minor lower (updateAttachments p f keep : Transaction Digest _) := by
  intro db n db' h
  have hk := keeps_updateAttachments hf h
  rw [updateAttachments, modifyGet_eq_ok, Prod.mk.injEq] at h
  obtain ⟨-, rfl⟩ := h
  exact .of_threads hk le_rfl rfl

theorem minor_claimPendingAttachments (now : Time) (locked : List Uuid) :
    Minor lower (claimPendingAttachments now locked : Transaction Digest _) :=
  .bind minor_freshId fun _ => .bind .get fun _ =>
    .bind (minor_updateAttachments fun _ => rfl) fun _ => .pure _

theorem minor_storeIngested (attachment : ClaimedAttachment) (sizeBytes : ℕ) :
    Minor lower (storeIngested attachment sizeBytes : Transaction Digest _) :=
  .bind (minor_updateAttachments fun _ => rfl) fun _ => .pure _

theorem minor_failAttachment (now : Time) (attachment : ClaimedAttachment) (error : IngestError) :
    Minor lower (failAttachment now attachment error : Transaction Digest _) :=
  .ite (.bind (minor_updateAttachments fun _ => rfl) fun _ => .pure _)
    (.bind (minor_updateAttachments fun _ => rfl) fun _ => .pure _)

theorem minor_deleteStoredObject (now : Time) (key : StorageKey) :
    Minor lower (deleteStoredObject now key : Transaction Digest _) := by
  refine .modify fun db => ?_
  obtain ⟨n, tombstones, hn, heq, -⟩ := tombstoneFor_tombstoned now key db
  rw [heq]
  exact .of_eq hn rfl rfl rfl rfl rfl rfl

theorem minor_expireUnreferencedUploads (now cutoff : Time) :
    Minor lower (expireUnreferencedUploads now cutoff : Transaction Digest _) := by
  refine .modify fun db => ?_
  obtain ⟨n, tombstones, hn, heq, -⟩ := deleteAttachments_eq now
    (fun a => a.source == .upload && a.messageId.isNone && a.createdAt < cutoff) db
  rw [heq]
  refine .of_threads (fun hs => ?_) hn rfl
  exact hs.of_eq hn rfl rfl rfl rfl rfl fun a ha =>
    hs.attachments_le hn a (Table.mem_delete.mp ha).1

theorem minor_claimTombstones (now : Time) (locked : List Uuid) :
    Minor lower (claimTombstones now locked : Transaction Digest _) :=
  .bind minor_freshId fun _ => .bind .get fun _ =>
    .bind (.modify fun _ => .of_eq le_rfl rfl rfl rfl rfl rfl rfl) fun _ => .pure _

theorem minor_finishTombstone (tombstone : ClaimedTombstone) :
    Minor lower (finishTombstone tombstone : Transaction Digest _) :=
  .modify fun _ => .of_eq le_rfl rfl rfl rfl rfl rfl rfl

theorem minor_retryTombstone (now : Time) (tombstone : ClaimedTombstone) (errorName : JsString) :
    Minor lower (retryTombstone now tombstone errorName : Transaction Digest _) :=
  .modify fun _ => .of_eq le_rfl rfl rfl rfl rfl rfl rfl

/-- The row of an upload whose storage key was drawn. -/
theorem createUpload_lawful {now : Time} {filename contentType : JsString} {sizeBytes : ℕ}
    {storageKey : StorageKey} {db db' : Database Digest} {id : Uuid}
    (hkey : storageKey.id < db.nextId)
    (h : createUpload now filename contentType sizeBytes storageKey db = .ok (id, db')) :
    Lawful lower ThreadEvent.IsMinor db db' := by
  simp only [createUpload, bind_eq_ok, freshId_eq_ok, pure_eq_ok] at h
  obtain ⟨_, _, ⟨rfl, rfl⟩, _, _, hc, rfl, rfl⟩ := h
  have hsound := fun hs : Database.Sound { db with nextId := db.nextId + 1 } =>
    sound_createAttachment hs (Nat.lt_succ_self _) (hkey.trans (Nat.lt_succ_self _)) hc
  obtain ⟨-, table, -, rfl⟩ := createAttachment_eq_ok hc
  exact .of_threads (fun hs => hsound (keeps_freshId (freshId_eq_ok.mpr ⟨rfl, rfl⟩) hs))
    (Nat.le_succ _) rfl

/-! ### Attachments of a message, and the allowlist -/

theorem still_projectInboundAttachments (toLowerCase : JsString → JsString) (config : Config)
    (now : Time) (messageId : Uuid) (resendEmailId : JsString)
    (attachments : List ResendReceivedAttachment) :
    Preserves Still (projectInboundAttachments toLowerCase config now messageId resendEmailId
      attachments : Transaction Digest _) := by
  have hone : ∀ a, Preserves Still (projectInboundAttachment toLowerCase config now messageId
      resendEmailId a : Transaction Digest _) := by
    intro a
    refine .bind .get fun db => .ite (.pure _) (.bind still_freshId fun _ =>
      .bind still_freshId fun _ => .bind ?_ fun _ => .pure _)
    intro db u db' h
    obtain ⟨-, table, -, rfl⟩ := createAttachment_eq_ok h
    exact .of_eq rfl
  have hall : ∀ as, Preserves Still (countCreated (projectInboundAttachment
      toLowerCase config now messageId resendEmailId) as : Transaction Digest _) := by
    intro as
    induction as with
    | nil => exact .pure _
    | cons a as ih => exact .bind (hone a) fun _ => .bind ih fun _ => .pure _
  exact .ite (hall _) (.pure _)

theorem minor_claimAttachmentsForMessage (config : Config) (messageId : Uuid)
    (refs : Option (List EmailAttachmentRefInput)) :
    Minor lower (claimAttachmentsForMessage config messageId refs : Transaction Digest _) := by
  have hset : ∀ refs, Minor lower (setContentIds messageId refs : Transaction Digest _) := by
    intro refs
    induction refs with
    | nil => exact .pure _
    | cons ref refs ih => exact .bind (minor_updateAttachments fun _ => rfl) fun _ => ih
  unfold claimAttachmentsForMessage
  split
  · exact .pure _
  · exact .pure _
  · exact .bind (.ensure _ _) fun _ => .bind (minor_updateAttachments fun _ => rfl) fun _ =>
      .bind (.ensure _ _) fun _ => .bind (hset _) fun _ => .bind .get fun _ =>
        .bind (.ensure _ _) fun _ => .pure _

theorem minor_grantIdentity (entry : EmailAddressAllowlistEntry) :
    Minor lower (grantIdentity entry : Transaction Digest _) :=
  minor_insertRow fun _ _ => .of_eq le_rfl rfl rfl rfl rfl rfl rfl

theorem minor_revokeIdentity (entry : EmailAddressAllowlistEntry) :
    Minor lower (revokeIdentity entry : Transaction Digest _) :=
  .modify fun _ => .of_eq le_rfl rfl rfl rfl rfl rfl rfl

end ResendConversation
