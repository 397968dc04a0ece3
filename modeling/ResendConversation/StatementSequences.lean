import ResendConversation.Statements

/-! # The statements of the transactions

Every transaction of the service is taken apart into the statements of `Statement`, and the
statements that are not routine are named by the grant of the transaction. -/

namespace ResendConversation

open Foundation Tx

variable {Digest : Type} {G : Grant Digest}

/-- The transaction performs statements that are routine or granted. -/
abbrev Performing (G : Grant Digest) {α : Type} (x : Transaction Digest α) : Prop :=
  Preserves (Performs G) x

/-- A statement on tables that no kind of statement names. -/
theorem Performs.of_same {db db' : Database Digest} (le : db.nextId ≤ db'.nextId)
    (h : db' = { db with
      nextId := db'.nextId
      routingAliases := db'.routingAliases
      outboxBatches := db'.outboxBatches
      outboxEntries := db'.outboxEntries
      attachmentOutboxEntries := db'.attachmentOutboxEntries
      webhookEvents := db'.webhookEvents }) : Performs G db db' := by
  rw [h]
  exact .single (.other _ _ _ _ _ _ le)

theorem performs_freshId : Performing G (freshId : Transaction Digest Uuid) := by
  intro db id db' h
  obtain ⟨-, rfl⟩ := freshId_eq_ok.mp h
  exact .of_same (Nat.le_succ _) rfl

theorem performs_insertRow {α κ : Type} [DecidableEq κ] {key : α → κ}
    {t : Database Digest → Table key} {put : Database Digest → Table key → Database Digest}
    {row : α} (h : ∀ db table, (t db).insert? row = some table → Performs G db (put db table)) :
    Performing G (insertRow t put row) := by
  intro db u db' hx
  obtain ⟨table, ht, rfl⟩ := insertRow_eq_ok.mp hx
  exact h db table ht

/-! ### Conversations -/

theorem performs_updateConversation {id : Uuid} {f : EmailConversation → EmailConversation}
    {keep : ∀ c, (f c).id = c.id}
    (h : ∀ db : Database Digest, Statement G db
      { db with conversations := db.conversations.update (fun c => c.id == id) f keep }) :
    Performing G (updateConversation id f keep : Transaction Digest _) := by
  intro db r db' hx
  obtain ⟨-, rfl⟩ := updateConversation_eq_ok hx
  exact .single (h db)

theorem performs_turn (p : EmailConversation → Bool) (state : ConversationState)
    (changedAt : Time) :
    Performing G
      (updateConversations p (fun c => { c with state := state, stateChangedAt := changedAt }) :
      Transaction Digest _) := by
  intro db n db' h
  rw [updateConversations_eq_ok h]
  exact .single (.turn p state changedAt)

theorem performs_applyAutomaticState (id : Uuid) (state : ConversationState) (changedAt : Time) :
    Performing G (applyAutomaticState id state changedAt : Transaction Digest _) :=
  .bind (performs_turn _ _ _) fun _ => .pure _

theorem performs_markConversationTerminated (id : Uuid) (changedAt : Time) :
    Performing G (markConversationTerminated id changedAt : Transaction Digest _) :=
  .bind (performs_turn _ _ _) fun _ => .pure _

/-- The event of an appending transaction. -/
def ConversationEventInput.event (input : ConversationEventInput) (c : EmailConversation)
    (id : Uuid) :
    ConversationEvent where
  id := id
  conversationId := c.id
  sequence := c.eventSequence + 1
  type := input.type
  occurredAt := input.occurredAt
  topic := c.topicType.bind fun t => c.externalTopicId.map fun e => (t, e)
  actor := input.actor
  cause := input.cause
  messageId := input.messageId
  state := input.state
  deliveryState := input.deliveryState
  mergedIntoConversationId := input.mergedIntoConversationId
  attachmentCount := input.attachmentCount

/-- What `appendConversationEvent` does while the sink is enabled. -/
structure EventAppended (input : ConversationEventInput) (db db' : Database Digest)
    (r : Option Uuid) :
    Prop where
  result : r = some db.nextId
  appended : ∃ c events deliveries, db.conversations.get? input.conversationId = some c ∧
    db.conversationEvents.insert? (input.event c db.nextId) = some events ∧
    db.conversationEventDeliveries.insert? ⟨db.nextId⟩ = some deliveries ∧
    db' = { db with
      nextId := db.nextId + 1
      conversations := db.conversations.update (fun c => c.id == input.conversationId) fun c =>
        { c with eventSequence := c.eventSequence + 1 }
      conversationEvents := events
      conversationEventDeliveries := deliveries }

theorem appendConversationEvent_eq_ok {config : Config} {input : ConversationEventInput}
    {db db' : Database Digest} {r : Option Uuid}
    (h : appendConversationEvent config input db = .ok (r, db')) :
    if config.conversationEventsEnabled then EventAppended input db db' r else r = none ∧
      db' = db := by
  unfold appendConversationEvent at h
  split at h
  next henabled =>
    rw [if_pos henabled]
    simp only [bind_eq_ok, get_eq_ok, ensure_eq_ok, freshId_eq_ok, insertRow_eq_ok, pure_eq_ok] at h
    obtain ⟨_, _, hu, _, _, ⟨rfl, rfl⟩, _, _, ⟨-, rfl⟩, _, _, ⟨rfl, rfl⟩, _, _, ⟨events, he, rfl⟩,
      _, _, ⟨deliveries, hd, rfl⟩, rfl, rfl⟩ := h
    obtain ⟨⟨c, hc, rfl⟩, rfl⟩ := updateConversation_eq_ok hu
    exact ⟨rfl, c, events, deliveries, hc, he, hd, rfl⟩
  next henabled =>
    rw [if_neg henabled]
    obtain ⟨rfl, rfl⟩ := pure_eq_ok.mp h
    exact ⟨rfl, rfl⟩

theorem performs_appendConversationEvent (config : Config) {input : ConversationEventInput}
    (hlast : input.type = .deleted → G.purge input.conversationId) :
    Performing G (appendConversationEvent config input : Transaction Digest _) := by
  intro db r db' h
  have hok := appendConversationEvent_eq_ok h
  split at hok
  · obtain ⟨-, c, events, deliveries, hc, he, hd, rfl⟩ := hok
    have hid : (input.event c db.nextId).conversationId = input.conversationId := by
      rw [← Table.key_of_get? hc]
      rfl
    have hstatement := @Statement.event _ G db (input.event c db.nextId) c events deliveries
      (by rw [hid, hc]) rfl rfl (fun ht => hid ▸ hlast ht) he hd
    rw [hid] at hstatement
    exact .single hstatement
  · rw [hok.2]
    exact Std.Refl.refl _

/-- An event that is not the last one of its conversation. -/
theorem performs_event (config : Config) {input : ConversationEventInput}
    (htype : input.type ≠ .deleted) :
    Performing G (appendConversationEvent config input : Transaction Digest _) :=
  performs_appendConversationEvent config fun h => absurd h htype

/-- Only conversations and the event log are written. -/
def Logged (db db' : Database Digest) : Prop :=
  ∃ n conversations events deliveries, db.nextId ≤ n ∧ db' = { db with
    nextId := n
    conversations := conversations
    conversationEvents := events
    conversationEventDeliveries := deliveries }

instance : Std.Refl (@Logged Digest) where
  refl db := ⟨db.nextId, db.conversations, db.conversationEvents, db.conversationEventDeliveries,
    le_rfl, rfl⟩

instance : IsTrans (Database Digest) Logged where
  trans a b c := by
    rintro ⟨n, conversations, events, deliveries, hn, rfl⟩
      ⟨n', conversations', events', deliveries', hn', rfl⟩
    exact ⟨n', conversations', events', deliveries', hn.trans hn', rfl⟩

theorem Logged.trans {a b c : Database Digest} (h : Logged a b) (h' : Logged b c) : Logged a c :=
  IsTrans.trans _ _ _ h h'

theorem logged_updateConversation {id : Uuid} {f : EmailConversation → EmailConversation}
    {keep : ∀ c, (f c).id = c.id} :
    Preserves Logged (updateConversation id f keep : Transaction Digest _) := by
  intro db r db' h
  obtain ⟨-, rfl⟩ := updateConversation_eq_ok h
  exact ⟨_, _, _, _, le_rfl, rfl⟩

theorem logged_appendConversationEvent (config : Config) (input : ConversationEventInput) :
    Preserves Logged (appendConversationEvent config input : Transaction Digest _) := by
  intro db r db' h
  have hok := appendConversationEvent_eq_ok h
  split at hok
  · obtain ⟨-, c, events, deliveries, -, -, -, rfl⟩ := hok
    exact ⟨_, _, events, deliveries, Nat.le_succ _, rfl⟩
  · rw [hok.2]
    exact Std.Refl.refl _

theorem logged_applyAutomaticState (id : Uuid) (state : ConversationState) (changedAt : Time) :
    Preserves Logged (applyAutomaticState id state changedAt : Transaction Digest _) := by
  refine .bind ?_ fun _ => .pure _
  intro db n db' h
  rw [updateConversations_eq_ok h]
  exact ⟨_, _, _, _, le_rfl, rfl⟩

theorem logged_appendIntentEvents (ctx : SendContext Digest) (conversationId messageId : Uuid)
    (stateBefore : ConversationState) (stateChanged : Bool) :
    Preserves Logged (appendIntentEvents ctx conversationId messageId stateBefore stateChanged) :=
  .bind (logged_appendConversationEvent _ _) fun _ =>
    .ite (.bind (logged_appendConversationEvent _ _) fun _ => .pure _) (.pure _)

/-! ### Delivery reports -/

theorem performs_settle {p : EmailMessage Digest → Bool}
    {f : EmailMessage Digest → EmailMessage Digest} {keep : ∀ m, (f m).id = m.id}
    (outcome : EmailMessage Digest → Outcome) (hf : ∀ m, f m = m.settle (outcome m)) :
    Performing G (updateMessages p f keep) := by
  intro db n db' h
  obtain ⟨-, rfl⟩ := updateMessages_eq_ok.mp h
  obtain rfl : f = fun m => m.settle (outcome m) := funext hf
  exact .single (.settle p outcome)

theorem performs_settleOne {id : Uuid} {f : EmailMessage Digest → EmailMessage Digest}
    {keep : ∀ m, (f m).id = m.id} (outcome : EmailMessage Digest → Outcome)
    (hf : ∀ m, f m = m.settle (outcome m)) : Performing G (updateMessage id f keep) := by
  intro db r db' h
  obtain ⟨-, -, -, -, rfl⟩ := updateMessage_eq_ok.mp h
  obtain rfl : f = fun m => m.settle (outcome m) := funext hf
  exact .single (.settle (fun m => m.id == id) outcome)

theorem performs_reportDelivery (config : Config) (before : EmailMessage Digest) (id : Uuid)
    (state : EmailDeliveryState) (at_ : Time) :
    Performing G (reportDelivery config before id state at_) := by
  refine .bind .get fun db => ?_
  have hterminate : Performing G (do
      let stateChanged ← markConversationTerminated id at_
      if stateChanged then
        let _ ← appendConversationEvent config
          { conversationId := id
            type := .stateChanged
            occurredAt := at_
            actor := .system
            cause := js "unreachable_delivery"
            state := some ((db.conversations.get? id).map EmailConversation.state, .terminated) }
        pure ()
      else pure () : Transaction Digest Unit) :=
    .bind (performs_markConversationTerminated _ _) fun _ =>
      .ite (.bind (performs_event _ nofun) fun _ => .pure _) (.pure _)
  exact .ite (.bind (performs_event _ nofun) fun _ => .ite hterminate (.pure _))
    (.ite hterminate (.pure _))

theorem performs_projectOutboundDeliveryState (config : Config) (resendEmailId : JsString) :
    Performing G
    (projectOutboundDeliveryStateForResendEmail config resendEmailId : Transaction Digest _) := by
  refine .bind .get fun db => ?_
  dsimp only
  split
  · exact .pure _
  · refine .bind (performs_settle (fun m => ⟨m.state, m.stateDetail, _, _, _, _, m.resendEmailId⟩)
      fun _ => rfl) fun _ => ?_
    split
    · exact .pure _
    · split
      · exact .pure _
      · exact performs_reportDelivery _ _ _ _ _

theorem performs_reconcileAll (config : Config) (ids : List JsString) :
    Performing G (reconcileAll config ids : Transaction Digest _) := by
  induction ids with
  | nil => exact .pure _
  | cons id ids ih => exact .bind (performs_projectOutboundDeliveryState _ _) fun _ => ih

theorem performs_createWebhookEvent (now : Time) (svixId eventType emailId : JsString)
    (eventCreatedAt : Time) (detail : Option JsString) :
    Performing G (createWebhookEvent now svixId eventType emailId eventCreatedAt detail :
      Transaction Digest _) :=
  .bind .get fun _ => .ite (.pure _) (.bind performs_freshId fun _ =>
    performs_insertRow fun _ _ _ => .of_same le_rfl rfl)

theorem performs_recordDeliveryWebhook (config : Config) (now : Time)
    (svixId eventType emailId : JsString) (eventCreatedAt : Time) (detail : Option JsString) :
    Performing G (recordDeliveryWebhook config now svixId eventType emailId eventCreatedAt detail :
      Transaction Digest _) := by
  refine .bind .get fun db => ?_
  split
  · exact performs_projectOutboundDeliveryState _ _
  · exact .bind (performs_createWebhookEvent _ _ _ _ _ _) fun _ =>
      performs_projectOutboundDeliveryState _ _

/-! ### Sending -/

theorem performs_recordSendError (messageId : Uuid) (error : SendError) :
    Performing G (recordSendError messageId error : Transaction Digest _) :=
  performs_settleOne
    (fun m => ⟨_, _, m.deliveryState, m.deliveryStateDetail, m.deliveryStateUpdatedAt,
    m.deliveredAt, m.resendEmailId⟩) fun _ => rfl

theorem performs_recordSent (config : Config) (messageId : Uuid) (resendEmailId : JsString) :
    Performing G (recordSent config messageId resendEmailId : Transaction Digest _) :=
  .bind (performs_settleOne (fun m => ⟨_, _, _, m.deliveryStateDetail, m.deliveryStateUpdatedAt,
      m.deliveredAt, _⟩) fun _ => rfl) fun _ =>
    .bind (performs_projectOutboundDeliveryState _ _) fun _ => .bind .get fun _ => .orThrow _ _

/-- Messages end their delivery in a state. -/
theorem performs_updateState (p : EmailMessage Digest → Bool) (state : EmailMessageState)
    (detail : Option JsString) :
    Performing G (updateMessages p fun m => { m with state := state, stateDetail := detail }) :=
  performs_settle (fun m => ⟨state, detail, m.deliveryState, m.deliveryStateDetail,
    m.deliveryStateUpdatedAt, m.deliveredAt, m.resendEmailId⟩) fun _ => rfl

theorem performs_expirePending (messageId : Uuid) :
    Performing G (SendHandler.expirePending messageId : Transaction Digest _) :=
  performs_updateState _ _ _

/-! ### The lanes -/

theorem performs_claimTransaction (now : Time) (limit : ℕ) (locked : List Uuid) :
    Performing G (claimTransaction now limit locked : Transaction Digest _) := by
  have hload : ∀ id, Performing G (loadBatch id : Transaction Digest _) := fun id =>
    .bind .get fun _ => .bind (.orThrow _ _) fun _ => .pure _
  have hcreate : ∀ token entries,
      Performing G (createBatch now token entries : Transaction Digest _) :=
    fun token entries => .bind performs_freshId fun _ =>
      .bind (performs_insertRow fun _ _ _ => .of_same le_rfl rfl) fun _ =>
        .bind (.modify fun _ => .of_same le_rfl rfl) fun _ => .pure _
  refine .bind performs_freshId fun token => .bind (.modify fun db => .of_same le_rfl rfl) fun _ =>
    .bind .get fun db => ?_
  split
  · exact .bind (.modify fun _ => .of_same le_rfl rfl) fun _ => .bind (hload _) fun _ => .pure _
  · split
    · exact .pure _
    · exact .bind (hcreate _ _) fun _ => .bind (hload _) fun _ => .pure _

theorem performs_deleteOwnedBatch (batch : ClaimedBatch Digest) :
    Performing G (deleteOwnedBatch batch) :=
  .bind .get fun _ => .bind (.ensure _ _) fun _ => .modify fun _ => .of_same le_rfl rfl

theorem performs_finalizeTerminalBatch (batch : ClaimedBatch Digest) (state : EmailMessageState)
    (detail : JsString) : Performing G (finalizeTerminalBatch batch state detail) :=
  .bind (.bind .get fun _ => .ensure _ _) fun _ => .bind (.ensure _ _) fun _ =>
    .bind (performs_updateState _ _ _) fun _ => performs_deleteOwnedBatch _

theorem performs_finalizeBatch (config : Config) (now : Time) (batch : ClaimedBatch Digest)
    (decision : BatchDecision) : Performing G (finalizeBatch config now batch decision) := by
  cases decision with
  | accept ids =>
      exact .bind (.bind .get fun _ => .ensure _ _) fun _ => .bind (.ensure _ _) fun _ =>
        .bind (.ensure _ _) fun _ =>
          .bind (performs_settle
          (fun m => ⟨_, _, _, m.deliveryStateDetail, m.deliveryStateUpdatedAt,
          m.deliveredAt, _⟩) fun _ => rfl) fun _ => .bind .get fun _ => .bind (.ensure _ _) fun _ =>
        .bind (.ensure _ _) fun _ => .bind (performs_reconcileAll _ _) fun _ =>
        performs_deleteOwnedBatch _
  | fail errorCode => exact performs_finalizeTerminalBatch _ _ _
  | indeterminate detail => exact performs_finalizeTerminalBatch _ _ _
  | retry errorCode =>
      exact .bind (.ensure _ _) fun _ => .bind .get fun _ => .bind (.ensure _ _) fun _ =>
        .modify fun _ => .of_same le_rfl rfl

theorem performs_claimEntry (now : Time) (locked : List Uuid) :
    Performing G (claimEntry now locked : Transaction Digest _) := by
  refine .bind performs_freshId fun token => .bind (.modify fun db => .of_same le_rfl rfl) fun _ =>
    .bind .get fun db => ?_
  split
  · exact .pure _
  · exact .bind (.modify fun _ => .of_same le_rfl rfl) fun _ =>
      .bind (.orThrow _ _) fun _ => .pure _

theorem performs_deleteOwnedEntry (entry : ClaimedEntry Digest) :
    Performing G (deleteOwnedEntry entry) :=
  .bind .get fun _ => .bind (.ensure _ _) fun _ => .modify fun _ => .of_same le_rfl rfl

theorem performs_endEntry (config : Config) (now : Time) (entry : ClaimedEntry Digest)
    (decision : EntryDecision) : Performing G (endEntry config now entry decision) := by
  cases decision with
  | accept id =>
      exact .bind (.ensure _ _) fun _ =>
        .bind (performs_settle (fun m => ⟨_, _, _, m.deliveryStateDetail,
          m.deliveryStateUpdatedAt, m.deliveredAt, _⟩) fun _ => rfl) fun _ => .bind .get fun _ =>
        .bind (.ensure _ _) fun _ => .bind (.ensure _ _) fun _ =>
          .bind (performs_projectOutboundDeliveryState _ _) fun _ =>
        performs_deleteOwnedEntry _
  | finalize state detail =>
      exact .bind (.ensure _ _) fun _ => .bind (performs_updateState _ _ _) fun _ =>
        performs_deleteOwnedEntry _
  | retry errorCode =>
      exact .bind (.ensure _ _) fun _ => .bind .get fun _ => .bind (.ensure _ _) fun _ =>
        .modify fun _ => .of_same le_rfl rfl

/-! ### Files -/

theorem performs_advance {p : EmailAttachment → Bool} {f : EmailAttachment → EmailAttachment}
    {keep : ∀ a, (f a).id = a.id} {db db' : Database Digest} {n : ℕ} (hingest : G.ingest)
    (h : updateAttachments p f keep db = .ok (n, db'))
    (frame : ∀ a : EmailAttachment, a.AdvancesTo (f a))
    (selects : ∀ a ∈ db.attachments, p a = true → a.source = .inbound ∨ a.leaseToken.isSome) :
    Performs G db db' := by
  rw [updateAttachments, modifyGet_eq_ok, Prod.mk.injEq] at h
  obtain ⟨-, rfl⟩ := h
  exact .single (.advance p f keep hingest selects frame)

theorem performs_claimPendingAttachments (hingest : G.ingest) (now : Time) (locked : List Uuid) :
    Performing G (claimPendingAttachments now locked : Transaction Digest _) := by
  refine .bind performs_freshId fun token => ?_
  intro db r db' h
  obtain ⟨_, _, hget, h⟩ := bind_eq_ok.mp h
  obtain ⟨rfl, rfl⟩ := get_eq_ok.mp hget
  obtain ⟨_, _, hupdate, h⟩ := bind_eq_ok.mp h
  obtain ⟨-, rfl⟩ := pure_eq_ok.mp h
  refine performs_advance hingest hupdate (fun _ => rfl) fun a ha hp => ?_
  -- a claimed row is ready, and only inbound attachments are
  obtain ⟨b, hb, hba⟩ := List.mem_map.mp (List.contains_iff_mem.mp hp)
  obtain ⟨hb, hready⟩ := Table.mem_selectSorted.mp (List.mem_of_mem_take hb)
  obtain rfl := Table.key_inj hb ha hba
  simp only [EmailAttachment.ready, Bool.and_eq_true, beq_iff_eq] at hready
  exact .inl hready.1.1.1.1.1.2

/-- The rows whose lease a worker holds. -/
theorem performs_owned {attachment : ClaimedAttachment} {f : EmailAttachment → EmailAttachment}
    {keep : ∀ a, (f a).id = a.id} (hingest : G.ingest)
    (frame : ∀ a : EmailAttachment, a.AdvancesTo (f a)) :
    Performing G (updateAttachments (fun a => a.id == attachment.id &&
      a.leaseToken == some attachment.leaseToken) f keep : Transaction Digest _) := by
  intro db n db' h
  refine performs_advance hingest h frame fun a _ hp => .inr ?_
  simp only [Bool.and_eq_true, beq_iff_eq] at hp
  rw [hp.2]
  rfl

theorem performs_storeIngested (hingest : G.ingest) (attachment : ClaimedAttachment)
    (sizeBytes : ℕ) :
    Performing G (storeIngested attachment sizeBytes : Transaction Digest _) :=
  .bind (performs_owned hingest fun _ => rfl) fun _ => .pure _

theorem performs_failAttachment (hingest : G.ingest) (now : Time) (attachment : ClaimedAttachment)
    (error : IngestError) :
    Performing G (failAttachment now attachment error : Transaction Digest _) :=
  .ite (.bind (performs_owned hingest fun _ => rfl) fun _ => .pure _)
    (.bind (performs_owned hingest fun _ => rfl) fun _ => .pure _)

theorem performs_deleteStoredObject (now : Time) (key : StorageKey) :
    Performing G (deleteStoredObject now key : Transaction Digest _) :=
  .modify fun _ => .single (.tombstone now key)

theorem performs_expireUnreferencedUploads (now cutoff : Time) (hexpire : G.expire) :
    Performing G (expireUnreferencedUploads now cutoff : Transaction Digest _) := by
  refine .modify fun _ => .single (.expire now _ hexpire fun a h => ?_)
  simp only [Bool.and_eq_true, beq_iff_eq, Option.isNone_iff_eq_none] at h
  exact h.1

theorem performs_claimTombstones (now : Time) (locked : List Uuid) :
    Performing G (claimTombstones now locked : Transaction Digest _) :=
  .bind performs_freshId fun _ => .bind .get fun _ =>
    .bind (.modify fun _ => .single (.leaseTombstones _ _ _ fun _ => rfl)) fun _ => .pure _

theorem performs_retryTombstone (now : Time) (tombstone : ClaimedTombstone) (errorName : JsString) :
    Performing G (retryTombstone now tombstone errorName : Transaction Digest _) :=
  .modify fun _ => .single (.leaseTombstones _ _ _ fun _ => rfl)

/-- The row of an upload under a storage key that was drawn for it. -/
theorem performs_createUpload {now : Time} {filename contentType : JsString} {sizeBytes : ℕ}
    {storageKey : StorageKey} (hupload : ∀ id, G.upload
      { id, source := .upload, state := .stored, filename, contentType, sizeBytes, storageKey
        nextAttemptAt := now, createdAt := now }) :
    Performing G (createUpload now filename contentType sizeBytes storageKey :
      Transaction Digest _) := by
  intro db id db' h
  simp only [createUpload, bind_eq_ok, freshId_eq_ok, pure_eq_ok] at h
  obtain ⟨_, _, ⟨rfl, rfl⟩, _, _, hc, rfl, rfl⟩ := h
  obtain ⟨hfree, table, ht, rfl⟩ := createAttachment_eq_ok hc
  exact .single (.upload _ table (hupload _) rfl rfl rfl rfl rfl hfree ht)

theorem performs_projectInboundAttachments (toLowerCase : JsString → JsString) (config : Config)
    (now : Time) (messageId : Uuid) (resendEmailId : JsString)
    (attachments : List ResendReceivedAttachment) :
    Performing G (projectInboundAttachments toLowerCase config now messageId resendEmailId
      attachments : Transaction Digest _) := by
  have hcreate : ∀ row : Uuid → Uuid → EmailAttachment, (∀ id key, (row id key).id = id ∧
      (row id key).storageKey.id = key ∧ (row id key).source = .inbound ∧
        (row id key).state = .pending ∧
      (row id key).leaseToken = none ∧ (row id key).leaseUntil = none ∧
        (row id key).attemptCount = 0) →
      Performing G (do
        let id ← freshId
        let key ← freshId
        createAttachment (row id key)
        pure true : Transaction Digest Bool) := by
    intro row hrow db r db' h
    simp only [bind_eq_ok, freshId_eq_ok, pure_eq_ok] at h
    obtain ⟨_, _, ⟨rfl, rfl⟩, _, _, ⟨rfl, rfl⟩, _, _, hc, rfl, rfl⟩ := h
    have hbound := createAttachment_bound hc
    obtain ⟨-, table, ht, rfl⟩ := createAttachment_eq_ok hc
    obtain ⟨hid, hkey, hsource, hstate, hlease, hunleased, hattempts⟩ :=
      hrow db.nextId (db.nextId + 1)
    exact .single (.attach _ table hid hkey hsource hstate hlease hunleased hattempts hbound ht)
  have hall : ∀ as, Performing G (countCreated (projectInboundAttachment
      toLowerCase config now messageId resendEmailId) as : Transaction Digest _) := by
    intro as
    induction as with
    | nil => exact .pure _
    | cons a as ih =>
        refine .bind (.bind .get fun db => .ite (.pure _) ?_) fun _ => .bind ih fun _ => .pure _
        exact hcreate _ fun _ _ => ⟨rfl, rfl, rfl, rfl, rfl, rfl, rfl⟩
  exact .ite (hall _) (.pure _)

theorem performs_setContentIds {messageId : Uuid} (hbind : G.bind messageId)
    (refs : List EmailAttachmentRefInput) :
    Performing G (setContentIds messageId refs : Transaction Digest _) := by
  induction refs with
  | nil => exact .pure _
  | cons ref refs ih =>
      refine .bind ?_ fun _ => ih
      intro db n db' h
      rw [updateAttachments, modifyGet_eq_ok, Prod.mk.injEq] at h
      obtain ⟨-, rfl⟩ := h
      exact .single (.inline messageId ref.id ref.contentId hbind)

theorem performs_claimAttachmentsForMessage (config : Config) {messageId : Uuid}
    (hbind : G.bind messageId) {refs : Option (List EmailAttachmentRefInput)}
    {db db' : Database Digest} {n : ℕ} (hdrawn : messageId < db.nextId)
    (h : claimAttachmentsForMessage config messageId refs db = .ok (n, db')) :
    Performs G db db' := by
  unfold claimAttachmentsForMessage at h
  split at h
  · obtain ⟨-, rfl⟩ := pure_eq_ok.mp h
    exact Std.Refl.refl _
  · obtain ⟨-, rfl⟩ := pure_eq_ok.mp h
    exact Std.Refl.refl _
  next refs _ =>
    simp only [bind_eq_ok, ensure_eq_ok, updateAttachments, modifyGet_eq_ok, get_eq_ok, pure_eq_ok,
      Prod.mk.injEq] at h
    obtain ⟨_, _, ⟨-, rfl⟩, _, _, ⟨-, rfl⟩, _, _, ⟨-, rfl⟩, _, db₁, hset, _, _, ⟨rfl, rfl⟩, _, _,
        ⟨-, rfl⟩, -,
      rfl⟩ := h
    exact (Performs.single
      (.bind messageId (refs.map EmailAttachmentRefInput.id) hbind hdrawn)).trans
      (performs_setContentIds hbind _ hset)

/-- Binding uploads writes attachments only. -/
theorem claimAttachmentsForMessage_attachments {config : Config} {messageId : Uuid}
    {refs : Option (List EmailAttachmentRefInput)} {db db' : Database Digest} {n : ℕ}
    (h : claimAttachmentsForMessage config messageId refs db = .ok (n, db')) :
    ∃ table, db' = { db with attachments := table } := by
  have hset : ∀ refs (db db' : Database Digest) u, setContentIds messageId refs db = .ok (u, db') →
      ∃ table, db' = { db with attachments := table } := by
    intro refs
    induction refs with
    | nil =>
        intro db db' u h
        obtain ⟨-, rfl⟩ := pure_eq_ok.mp h
        exact ⟨_, rfl⟩
    | cons ref refs ih =>
        intro db db' u h
        simp only [setContentIds, bind_eq_ok, updateAttachments, modifyGet_eq_ok,
          Prod.mk.injEq] at h
        obtain ⟨_, _, ⟨-, rfl⟩, h⟩ := h
        obtain ⟨table, rfl⟩ := ih _ _ _ h
        exact ⟨table, rfl⟩
  unfold claimAttachmentsForMessage at h
  split at h
  · obtain ⟨-, rfl⟩ := pure_eq_ok.mp h
    exact ⟨_, rfl⟩
  · obtain ⟨-, rfl⟩ := pure_eq_ok.mp h
    exact ⟨_, rfl⟩
  · simp only [bind_eq_ok, ensure_eq_ok, updateAttachments, modifyGet_eq_ok, get_eq_ok, pure_eq_ok,
      Prod.mk.injEq] at h
    obtain ⟨_, _, ⟨-, rfl⟩, _, _, ⟨-, rfl⟩, _, _, ⟨-, rfl⟩, _, db₁, hlabels, _, _, ⟨rfl, rfl⟩, _,
        _, ⟨-, rfl⟩,
      -, rfl⟩ := h
    obtain ⟨table, rfl⟩ := hset _ _ _ _ hlabels
    exact ⟨table, rfl⟩

/-! ### Merging -/

/-- No message belongs to the conversation. -/
def Database.Empties (db : Database Digest) (c : Uuid) : Prop :=
  ∀ m ∈ db.messages, m.conversationId ≠ some c

theorem performs_createRoutingAlias (id : Uuid) (source : EmailConversation) :
    Performing G (createRoutingAlias id source : Transaction Digest _) := by
  refine .bind .get fun db => ?_
  split
  · exact .pure _
  · exact .ite (.pure _) (.bind performs_freshId fun _ =>
      performs_insertRow fun _ _ _ => .of_same le_rfl rfl)

theorem performs_preserveMergedConversationState (target : EmailConversation)
    (sources : List EmailConversation) :
    Performing G (preserveMergedConversationState target sources : Transaction Digest _) := by
  unfold preserveMergedConversationState
  split
  · exact .pure _
  · exact .bind (.modify fun _ => .of_same le_rfl rfl) fun _ =>
      .bind (.forM fun _ _ => performs_createRoutingAlias _ _) fun _ =>
        .bind (performs_updateConversation fun _ => .merge target _) fun _ => .pure _

theorem performs_recordConversationMerges (config : Config) (target : Uuid) (sources : List Uuid)
    (occurredAt : Time) :
    Performing G
    (recordConversationMerges config target sources occurredAt : Transaction Digest _) :=
  .bind (.forM fun _ _ => .bind (performs_event _ nofun) fun _ => .pure _) fun _ =>
    .bind (performs_event _ nofun) fun _ => .pure _

theorem performs_moveMessages (hrethread : G.rethread) (target : Uuid) (sources : List Uuid) :
    Performing G (moveMessages target sources : Transaction Digest _) := by
  refine .bind ?_ fun _ => .pure _
  intro db n db' h
  obtain ⟨-, rfl⟩ := updateMessages_eq_ok.mp h
  exact .single (.move target sources hrethread)

theorem performs_adoptReplies (parentMessageId : Uuid) (p : EmailMessage Digest → Bool) :
    Performing G (adoptReplies parentMessageId p) := by
  refine .bind ?_ fun _ => .pure _
  intro db n db' h
  obtain ⟨-, rfl⟩ := updateMessages_eq_ok.mp h
  exact .single (.adopt parentMessageId p)

theorem performs_refreshLastMessageAt (hrethread : G.rethread) (id : Uuid) :
    Performing G (refreshLastMessageAt id : Transaction Digest _) := by
  refine .bind .get fun db => ?_
  split
  · exact .pure _
  · exact .bind (performs_updateConversation fun _ => .date id _ hrethread) fun _ => .pure _

theorem emptied_moveMessages {target : Uuid} {sources : List Uuid} (htarget : target ∉ sources)
    {db db' : Database Digest} {u : Unit} (h : moveMessages target sources db = .ok (u, db')) :
    Emptied sources db' := by
  simp only [moveMessages, bind_eq_ok, updateMessages_eq_ok, pure_eq_ok] at h
  obtain ⟨_, _, ⟨-, rfl⟩, -, rfl⟩ := h
  intro m' hm'
  rw [Table.mem_update] at hm'
  obtain ⟨m, -, rfl⟩ := hm'
  split
  · simpa using htarget
  · simp_all

theorem performs_absorbConversations {config : Config} {now occurredAt : Time} {target : Uuid}
    {sources : List Uuid} {adopt : Transaction Digest Unit} (hrethread : G.rethread)
    (hadopt : Performing G adopt) (hkeep : Preserves KeepsVacant adopt) (htarget : target ∉ sources)
    (hdelete : ∀ db c, db.Empties c → G.delete db c) :
    Performing G (absorbConversations config now target sources occurredAt adopt) := by
  intro db u db' h
  simp only [absorbConversations, bind_eq_ok, modify_eq_ok] at h
  obtain ⟨_, db₁, h₁, _, db₂, h₂, _, db₃, h₃, rfl⟩ := h
  have hmoved := emptied_moveMessages htarget h₁
  have hrecorded :=
    (keepsVacant_recordConversationMerges config target sources occurredAt h₂).emptied hmoved
  have hempty := (hkeep h₃).emptied hrecorded
  refine (performs_moveMessages hrethread _ _ h₁).trans
    ((performs_recordConversationMerges _ _ _ _ h₂).trans
    ((hadopt h₃).trans
      (.single (.delete now sources fun c hc => hdelete db₃ c fun m hm hmc => ?_))))
  have hnone := hempty m hm
  rw [hmc] at hnone
  simp [hc] at hnone

theorem performs_mergeUnassigned {config : Config} {now occurredAt : Time}
    {conversation : EmailConversation} {related : List (ThreadedMessage Digest)}
    (hrethread : G.rethread) (hdelete : ∀ db c, db.Empties c → G.delete db c) :
    Performing G (mergeUnassigned config now conversation related occurredAt) := by
  unfold mergeUnassigned
  exact .ite (.pure _) (.bind (performs_preserveMergedConversationState _ _) fun _ =>
    performs_absorbConversations hrethread (.pure _) (.pure _) target_notMem_unassigned hdelete)

/-- The grant of a transaction that records the Message-ID of an outbound message. -/
def Grant.recording (internetMessageId : JsString) : Grant Digest where
  identify id := id = internetMessageId
  delete := Database.Empties
  rethread := True

theorem performs_recordOutboundInternetMessageId (rt : Runtime Digest) (config : Config)
    (scan : Scan (EmailMessage Digest)) (now : Time) (messageId : Uuid)
    (internetMessageId : JsString) (emailCreatedAt : Time) :
    Performing (.recording internetMessageId)
      (recordOutboundInternetMessageId rt config scan now messageId
      internetMessageId emailCreatedAt) := by
  refine .bind .get fun db => .bind (.orThrow _ _) fun outbound => .bind (.ensure _ _) fun _ =>
    .bind (.orThrow _ _) fun conversationId => .bind (.orThrow _ _) fun conversation =>
      .bind ?_ fun _ => .bind .get fun db' => ?_
  · intro db m db' h
    obtain ⟨_, -, -, -, rfl⟩ := updateMessage_eq_ok.mp h
    exact .single (.identify outbound.id internetMessageId emailCreatedAt rfl)
  · refine .ite
      (.bind (performs_adoptReplies _ _) fun _ => .bind (performs_refreshLastMessageAt trivial _)
      fun _ => .pure _) (.bind (performs_preserveMergedConversationState _ _) fun _ =>
        .bind ?_ fun _ =>
        .bind (performs_refreshLastMessageAt trivial _) fun _ => .pure _)
    exact performs_absorbConversations trivial (performs_adoptReplies _ _)
      (keepsVacant_adoptReplies _ _)
      target_notMem_unassigned fun _ _ h => h

/-! ### Projection -/

/-- The grant of a projection: the rows of the received email. -/
def Grant.projecting (rt : Runtime Digest) (now : Time) (event : EmailEventData)
    (email : ResendEmail) :
    Grant Digest where
  conversation c := c.subject = normalizeSubject email.subject ∧
    c.participantAddress = (parseInboundEmail rt event email).participant.address ∧
    c.participantName = (parseInboundEmail rt event email).displayFrom.name
  message _ m := ∃ conversationId parent,
    m = inboundMessage event email (parseInboundEmail rt event email) now m.id conversationId parent
  delete := Database.Empties
  rethread := True

theorem performs_createMessage {row : Uuid → EmailMessage Digest} (hid : ∀ id, (row id).id = id)
    (hrow : ∀ db id, G.message db (row id)) : Performing G (createMessage row) := by
  intro db m db' h
  obtain ⟨rfl, hc⟩ := createMessage_eq_ok h
  obtain ⟨table, ht, rfl⟩ := hc.table
  exact .single (.message _ table (hrow db _) (hid _) hc.shape hc.conversation ht)

theorem performs_newInboundConversation (rt : Runtime Digest) (event : EmailEventData)
    (email : ResendEmail) (now now' : Time) :
    Performing (.projecting rt now' event email)
      (newInboundConversation email (parseInboundEmail rt event email) now :
        Transaction Digest _) := by
  intro db c db' h
  simp only [newInboundConversation, bind_eq_ok, freshId_eq_ok, pure_eq_ok] at h
  obtain ⟨_, _, ⟨rfl, rfl⟩, _, _, ⟨rfl, rfl⟩, _, _, hc, rfl, rfl⟩ := h
  obtain ⟨table, ht, rfl⟩ := createConversation_eq_ok hc
  exact .single (.conversation _ table ⟨rfl, rfl, rfl⟩ rfl rfl ht)

theorem performs_finishProjection (hrethread : G.rethread) (config : Config)
    (inbound : InboundEmail) (conversation : EmailConversation) (created : Bool) (messageId : Uuid)
    (count : ℕ) :
    Performing G (finishProjection config inbound conversation created messageId count :
      Transaction Digest _) := by
  refine .ite (.bind (performs_event _ nofun) fun _ => ?_) ?_
  all_goals
    exact .bind (performs_event _ nofun) fun _ => .bind (performs_adoptReplies _ _) fun _ =>
      .bind (performs_refreshLastMessageAt hrethread _) fun _ =>
        .bind (performs_applyAutomaticState _ _ _) fun _ =>
        .ite (.bind (performs_event _ nofun) fun _ => .pure _) (.pure _)

theorem performs_projectInto (rt : Runtime Digest) (config : Config) (now : Time)
    (event : EmailEventData) (email : ResendEmail) (related : RelatedMessages Digest)
    (conversation : EmailConversation) (created : Bool) :
    Performing (.projecting rt now event email)
      (projectInto rt config now event email related conversation created) :=
  .bind (performs_mergeUnassigned trivial fun _ _ h => h) fun _ =>
    .bind (performs_createMessage (fun _ => rfl) fun _ _ => ⟨_, _, rfl⟩) fun _ =>
      .bind (performs_projectInboundAttachments _ _ _ _ _ _) fun _ =>
        .bind (performs_finishProjection trivial _ _ _ _ _ _) fun _ => .pure _

theorem performs_projectInboundEmail (rt : Runtime Digest) (config : Config)
    (scan : Scan (EmailMessage Digest)) (now : Time) (event : EmailEventData) (email : ResendEmail)
    (replyToBaseAddress : JsString) :
    Performing (.projecting rt now event email)
      (projectInboundEmail rt config scan now event email replyToBaseAddress) := by
  refine .bind .get fun db => ?_
  split
  · exact .pure _
  · dsimp only
    split
    · exact performs_projectInto _ _ _ _ _ _ _ _
    · exact .bind (performs_newInboundConversation _ _ _ _ _) fun _ =>
        performs_projectInto _ _ _ _ _ _ _ _

/-! ### Identifiers -/

/-- Identifiers are never given back. -/
theorem nextId_le_performs {db db' : Database Digest} (h : Performs G db db') :
    db.nextId ≤ db'.nextId := by
  refine h.invariant (I := fun db₁ => db.nextId ≤ db₁.nextId) le_rfl fun db₁ db₂ hle hs =>
    hle.trans ?_
  cases hs with
  | other n aliases batches entries attachmentEntries webhooks le => exact le
  | delete now ids granted =>
      obtain ⟨n, tombstones, hn, heq, -⟩ := deleteAttachments_eq now (fun a => a.messageId.any
        ((db₁.messages.select fun m => m.conversationId.any ids.contains).map
          EmailMessage.id).contains) db₁
      simp only [deleteConversations, heq]
      exact hn
  | expire now p granted selects =>
      obtain ⟨n, tombstones, hn, heq, -⟩ := deleteAttachments_eq now p db₁
      rw [heq]
      exact hn
  | tombstone now key =>
      obtain ⟨n, tombstones, hn, heq, -⟩ := tombstoneFor_tombstoned now key db₁
      rw [heq]
      exact hn
  | conversation c table granted id sequence insert => exact Nat.le_add_right _ _
  | attach a table id key source state lease unleased attempts bound insert =>
      exact Nat.le_add_right _ _
  | message m table granted id shape placed insert => exact Nat.le_succ _
  | event e c events deliveries found sequence id granted insert insertDelivery =>
      exact Nat.le_succ _
  | upload a table granted id source state unbound lease free insert => exact Nat.le_succ _
  | _ => exact le_rfl

/-! ### Send transactions -/

/-- The rows that a send transaction may insert. -/
def SendContext.Inserts (ctx : SendContext Digest) (parent : Option ReplyParent)
    (db : Database Digest) (m : EmailMessage Digest) : Prop :=
  match ctx.request with
  | .opening _ value => ∃ token replyTo conversationId,
      buildConversationReplyTo ctx.rt.toLowerCase value.message.replyTo.address token =
        some replyTo ∧
        m = messageCreateData ctx value (openingSubject value) replyTo m.id conversationId
  | .reply _ conversationId value => ∃ p current replyTo, parent = some p ∧
      db.conversations.get? conversationId = some current ∧
      buildConversationReplyTo ctx.rt.toLowerCase value.replyTo.address current.routingToken =
        some replyTo ∧ m = replyCreateData ctx value current p replyTo m.id
  | .direct _ value => m = directCreateData ctx value m.id

/-- The grant of a send transaction whose message gets an identifier from `start` on. -/
def Grant.sending (ctx : SendContext Digest) (parent : Option ReplyParent) (start : Uuid) :
    Grant Digest where
  conversation c := ∃ queued value, ctx.request = .opening queued value ∧
    c.subject = openingSubject value ∧ c.participantAddress = value.participant.email ∧
      c.participantName = value.participant.name
  message := ctx.Inserts parent
  reopen value := ∃ queued, ctx.request = .opening queued value
  rethread := True
  bind id := start ≤ id

theorem performs_createOutboxEntry (ctx : SendContext Digest) (messageId : Uuid) :
    Performing G (createOutboxEntry ctx messageId) :=
  .ite (.ite (performs_insertRow fun _ _ _ => .of_same le_rfl rfl)
    (performs_insertRow fun _ _ _ => .of_same le_rfl rfl)) (.pure _)

/-- The insertion of an outbound message, the binding of its uploads, and the rest. -/
theorem performs_createOutbound {ctx : SendContext Digest} {row : Uuid → EmailMessage Digest}
    (hid : ∀ id, (row id).id = id) {db db' : Database Digest} {id : Uuid}
    (hrow : ∀ id, G.message db (row id)) (h : createOutbound ctx row db = .ok (id, db')) :
    Performs G db db' ∧ db.nextId ≤ id ∧ id < db'.nextId := by
  obtain ⟨m, db₁, h₁, h⟩ := bind_eq_ok.mp h
  obtain ⟨rfl, hc⟩ := createMessage_eq_ok h₁
  obtain ⟨table, ht, rfl⟩ := hc.table
  have hinsert : Statement G db { db with nextId := db.nextId + 1, messages := table } :=
    .message _ table (hrow _) (hid _) hc.shape hc.conversation ht
  obtain ⟨_, db₂, h₂, h⟩ := bind_eq_ok.mp h
  obtain ⟨rfl, rfl⟩ := pure_eq_ok.mp h
  have hentry := performs_createOutboxEntry (G := G) ctx (row db.nextId).id h₂
  have hlt : (row db.nextId).id < db.nextId + 1 := by
    rw [hid]
    exact Nat.lt_succ_self _
  exact ⟨(Performs.single hinsert).trans hentry, (hid _).ge,
    hlt.trans_le (nextId_le_performs hentry)⟩

theorem performs_appendIntentEvents (ctx : SendContext Digest) (conversationId messageId : Uuid)
    (stateBefore : ConversationState) (stateChanged : Bool) :
    Performing G (appendIntentEvents ctx conversationId messageId stateBefore stateChanged) :=
  .bind (performs_event _ nofun) fun _ =>
    .ite (.bind (performs_event _ nofun) fun _ => .pure _) (.pure _)

section
variable {ctx : SendContext Digest} {db db' : Database Digest} {id : Uuid}

theorem performs_openConversation {queued : Bool} {value : CreateConversationV2Input}
    {parent : Option ReplyParent} (hrequest : ctx.request = .opening queued value)
    (h : openConversation ctx value db = .ok (id, db')) :
    Performs (.sending ctx parent db.nextId) db db' := by
  simp only [openConversation, bind_eq_ok, lockAllowedEmailIdentities, get_eq_ok, pure_eq_ok,
    ensure_eq_ok, freshId_eq_ok, orThrow_eq_ok] at h
  obtain ⟨_, _, ⟨_, _, ⟨rfl, rfl⟩, rfl, rfl⟩, _, _, ⟨-, rfl⟩, _, _, ⟨rfl, rfl⟩, _, _,
      ⟨rfl, rfl⟩, replyTo, _,
    ⟨hreply, rfl⟩, _, _, hconversation, id, db₂, hcreate, _, db₃, hclaim, _, db₄, hcreated, _,
      db₅, hintended,
    rfl, rfl⟩ := h
  obtain ⟨table, ht, rfl⟩ := createConversation_eq_ok hconversation
  have hbegin : Performs (.sending ctx parent db.nextId) db
      { db with nextId := db.nextId + 2, conversations := table } :=
    .single (.conversation _ table ⟨queued, value, hrequest, rfl, rfl, rfl⟩ rfl rfl ht)
  have hinserts : ∀ db₁ id conversationId, ctx.Inserts parent db₁
      (messageCreateData ctx value (openingSubject value) replyTo id conversationId) := by
    intro db₁ id conversationId
    rw [SendContext.Inserts, hrequest]
    exact ⟨_, replyTo, conversationId, hreply, rfl⟩
  obtain ⟨hstored, hle, hlt⟩ :=
    performs_createOutbound (G := .sending ctx parent db.nextId) (fun _ => rfl)
    (fun id => hinserts _ id db.nextId) hcreate
  have hbind : db.nextId ≤ id := (Nat.le_add_right _ 2).trans hle
  exact hbegin.trans (hstored.trans ((performs_claimAttachmentsForMessage _ hbind hlt hclaim).trans
    ((performs_event _ (by simp) hcreated).trans
      (performs_event _ (by simp [outboundIntended]) hintended))))

theorem performs_reopenConversation {queued : Bool} {value : CreateConversationV2Input}
    {conversation : EmailConversation} {parent : Option ReplyParent} {r : Option Uuid}
    (hrequest : ctx.request = .opening queued value)
    (h : reopenConversation ctx value conversation db = .ok (r, db')) :
    Performs (.sending ctx parent db.nextId) db db' := by
  simp only [reopenConversation, bind_eq_ok, lockAllowedEmailIdentities, get_eq_ok, pure_eq_ok,
    ensure_eq_ok, findConversationOrThrow, orThrow_eq_ok] at h
  obtain ⟨current, _, ⟨_, _, ⟨rfl, rfl⟩, hcurrent, rfl⟩, _, _, ⟨_, _, ⟨rfl, rfl⟩, rfl, rfl⟩, _, _,
      ⟨-, rfl⟩, _, _,
    ⟨-, rfl⟩, _, _, ⟨rfl, rfl⟩, h⟩ := h
  split at h
  · obtain ⟨-, rfl⟩ := pure_eq_ok.mp h
    exact Std.Refl.refl _
  simp only [bind_eq_ok, orThrow_eq_ok, pure_eq_ok] at h
  obtain ⟨_, db₁, hupdate, replyTo, _, ⟨hreply, rfl⟩, id, db₂, hcreate, _, db₃, hclaim, _, db₄,
      hevents, rfl,
    rfl⟩ := h
  obtain ⟨-, rfl⟩ := updateConversation_eq_ok hupdate
  have hreopen : Performs (.sending ctx parent db.nextId) db _ :=
    .single (.reopen conversation.id value ctx.now ⟨queued, hrequest⟩)
  have hinserts : ∀ db₁ id conversationId, ctx.Inserts parent db₁
      (messageCreateData ctx value (openingSubject value) replyTo id conversationId) := by
    intro db₁ id conversationId
    rw [SendContext.Inserts, hrequest]
    exact ⟨_, replyTo, conversationId, hreply, rfl⟩
  obtain ⟨hstored, hle, hlt⟩ :=
    performs_createOutbound (G := .sending ctx parent db.nextId) (fun _ => rfl)
    (fun id => hinserts _ id conversation.id) hcreate
  exact hreopen.trans (hstored.trans ((performs_claimAttachmentsForMessage _ hle hlt hclaim).trans
    (performs_appendIntentEvents _ _ _ _ _ hevents)))

theorem performs_createReply {queued : Bool} {conversationId : Uuid} {value : MessageV2Input}
    {p : ReplyParent} (hrequest : ctx.request = .reply queued conversationId value)
    (h : createReply ctx conversationId value p db = .ok (id, db')) :
    Performs (.sending ctx (some p) db.nextId) db db' := by
  simp only [createReply, bind_eq_ok, lockAllowedEmailIdentities, get_eq_ok, pure_eq_ok,
    ensure_eq_ok, findConversationOrThrow, orThrow_eq_ok] at h
  obtain ⟨current, _, ⟨_, _, ⟨rfl, rfl⟩, hcurrent, rfl⟩, _, _, ⟨_, _, ⟨rfl, rfl⟩, rfl, rfl⟩, _, _,
      ⟨-, rfl⟩, _, _,
    ⟨-, rfl⟩, replyTo, _, ⟨hreply, rfl⟩, id, db₁, hcreate, _, db₂, hclaim, _, db₃, hupdate, _, db₄,
      hstate, _, db₅,
    hevents, rfl, rfl⟩ := h
  have hinserts : ∀ id,
      ctx.Inserts (some p) db (replyCreateData ctx value current p replyTo id) := by
    intro id
    rw [SendContext.Inserts, hrequest]
    exact ⟨p, current, replyTo, rfl, hcurrent, hreply, rfl⟩
  obtain ⟨hstored, hle, hlt⟩ :=
    performs_createOutbound (G := .sending ctx (some p) db.nextId) (fun _ => rfl)
    hinserts hcreate
  have hbase := performs_updateConversation (G := .sending ctx (some p) db.nextId)
    (fun _ => .reply conversationId value.replyTo.address ctx.now trivial) hupdate
  exact hstored.trans ((performs_claimAttachmentsForMessage _ hle hlt hclaim).trans (hbase.trans
    ((performs_applyAutomaticState _ _ _ hstate).trans
      (performs_appendIntentEvents _ _ _ _ _ hevents))))

theorem performs_createDirect {queued : Bool} {value : DirectEmailV2Input}
    {parent : Option ReplyParent} (hrequest : ctx.request = .direct queued value)
    (h : createDirect ctx value db = .ok (id, db')) :
    Performs (.sending ctx parent db.nextId) db db' := by
  simp only [createDirect, bind_eq_ok, lockAllowedEmailIdentity, get_eq_ok, pure_eq_ok,
    ensure_eq_ok] at h
  obtain ⟨_, _, ⟨_, _, ⟨rfl, rfl⟩, rfl, rfl⟩, _, _, ⟨-, rfl⟩, id, db₁, hcreate, _, db₂, hclaim,
    rfl, rfl⟩ := h
  have hinserts : ∀ id, ctx.Inserts parent db (directCreateData ctx value id) := by
    intro id
    rw [SendContext.Inserts, hrequest]
    rfl
  obtain ⟨hstored, hle, hlt⟩ :=
    performs_createOutbound (G := .sending ctx parent db.nextId) (fun _ => rfl)
    hinserts hcreate
  exact hstored.trans (performs_claimAttachmentsForMessage _ hle hlt hclaim)

theorem performs_storeMessage {parent : Option ReplyParent}
    (h : SendHandler.storeMessage ctx parent db = .ok (id, db')) :
    Performs (.sending ctx parent db.nextId) db db' := by
  unfold SendHandler.storeMessage at h
  cases hrequest : ctx.request with
  | opening queued value =>
      rw [hrequest] at h
      exact performs_openConversation hrequest h
  | reply queued conversationId value =>
      rw [hrequest] at h
      cases parent with
      | none => exact (throw_eq_ok.mp h).elim
      | some p => exact performs_createReply hrequest h
  | direct queued value =>
      rw [hrequest] at h
      exact performs_createDirect hrequest h

end

/-! ### Operator requests -/

/-- The grant of an operator request. -/
def Grant.operating (request : OperatorRequest) : Grant Digest where
  delete _ c := request = .deleteConversation c
  purge c := request = .deleteConversation c
  allowlist := ∃ entry, request = .grantIdentity entry ∨ request = .revokeIdentity entry

theorem performs_operator (request : OperatorRequest) (config : Config) (now : Time) :
    Performing (.operating request) (request.transaction config now : Transaction Digest Bool) := by
  cases request with
  | assignTopic id topic title =>
      refine .bind .get fun db => ?_
      split
      · exact .pure _
      · exact .ite (.pure _)
          (.bind (performs_updateConversation fun _ => .assign id topic title) fun _ =>
          .bind (performs_event _ nofun) fun _ => .pure _)
  | deleteConversation id =>
      refine .bind .get fun db => ?_
      split
      · exact .pure _
      · exact .bind (performs_appendConversationEvent _ fun _ => rfl) fun kept =>
          .bind (.modify fun _ => .single (.purge id kept rfl)) fun _ =>
            .bind (.modify fun _ => .single (.delete now [id] (by simp [Grant.operating])))
              fun _ => .pure _
  | setConversationState id state =>
      refine .bind .get fun db => ?_
      split
      · exact .pure _
      · exact .bind (performs_updateConversation fun _ => .turn (fun c => c.id == id) state now)
          fun _ =>
          .ite (.bind (performs_event _ nofun) fun _ => .pure _) (.pure _)
  | grantIdentity entry =>
      exact .bind (performs_insertRow fun _ _ _ => .single (.allowlist _ ⟨entry, .inl rfl⟩))
        fun _ => .pure _
  | revokeIdentity entry =>
      exact .bind (.modify fun _ => .single (.allowlist _ ⟨entry, .inr rfl⟩)) fun _ => .pure _

end ResendConversation
