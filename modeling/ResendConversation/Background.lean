import ResendConversation.Frames
import ResendConversation.Operator
import ResendConversation.Outbox

/-! # Background transactions

Every transaction of the service outside the send lanes is `Quiet`: event logging, state
transitions, delivery reports, the projection of inbound mail with its merges, the recording
of Message-IDs, attachments and the operator requests other than a deletion. -/

namespace ResendConversation

open Foundation Tx

variable {Digest : Type}

/-! ### Conversations and events -/

theorem ConversationFrame.update {db : Database Digest} {p : EmailConversation → Bool}
    {f : EmailConversation → EmailConversation} {keep : ∀ c, (f c).id = c.id}
    (hf : ∀ c, c.topicType.isSome → (f c).topicType.isSome) :
    ConversationFrame db { db with conversations := db.conversations.update p f keep } where
  assigned := by
    rintro c ⟨row, hrow, ht⟩
    refine ⟨if p row then f row else row, by simp [hrow], ?_⟩
    split
    · exact hf row ht
    · exact ht
  created := fun c hc => .inl (by simpa using hc)

theorem ConversationFrame.insert {db : Database Digest} {row : EmailConversation} {n : Uuid}
    {table : Table EmailConversation.id} (ht : db.conversations.insert? row = some table)
    (hid : db.nextId ≤ row.id) (hn : row.id < n) :
    ConversationFrame db { db with nextId := n, conversations := table } where
  assigned := by
    rintro c ⟨r, hr, hs⟩
    refine ⟨r, ?_, hs⟩
    have hfree := Table.insert?_eq_some_iff.mp ⟨table, ht⟩
    rw [Table.get?_of_insert? ht, if_neg, hr]
    rintro rfl
    rw [hr] at hfree
    cases hfree
  created := by
    intro c hc
    rw [Table.get?_of_insert? ht] at hc
    split at hc
    next h => exact .inr ⟨h ▸ hid, h ▸ hn⟩
    next => exact .inl hc

theorem checkConversation_eq_ok {c : EmailConversation} {db db' : Database Digest} {u : Unit}
    (h : checkConversation c db = .ok (u, db')) : db' = db := by
  simp only [checkConversation, bind_eq_ok, get_eq_ok, ensure_eq_ok] at h
  obtain ⟨_, _, ⟨rfl, rfl⟩, _, _, ⟨_, rfl⟩, _, _, ⟨_, rfl⟩, _, rfl⟩ := h
  rfl

theorem updateConversation_eq_ok {id : Uuid} {f : EmailConversation → EmailConversation}
    {keep : ∀ c, (f c).id = c.id} {db db' : Database Digest} {r : EmailConversation}
    (h : updateConversation id f keep db = .ok (r, db')) :
    (∃ c, db.conversations.get? id = some c ∧ r = f c) ∧
      db' = { db with conversations := db.conversations.update (fun c => c.id == id) f keep } := by
  simp only [updateConversation, findConversationOrThrow, bind_eq_ok, get_eq_ok, orThrow_eq_ok,
    modify_eq_ok, pure_eq_ok] at h
  obtain ⟨c, _, ⟨_, _, ⟨rfl, rfl⟩, hc, rfl⟩, _, _, hcheck, _, _, rfl, rfl, rfl⟩ := h
  rw [checkConversation_eq_ok hcheck]
  exact ⟨⟨c, hc, rfl⟩, rfl⟩

theorem updateConversations_eq_ok {p : EmailConversation → Bool}
    {f : EmailConversation → EmailConversation} {keep : ∀ c, (f c).id = c.id}
    {db db' : Database Digest} {n : ℕ} (h : updateConversations p f keep db = .ok (n, db')) :
    db' = { db with conversations := db.conversations.update p f keep } := by
  rw [updateConversations, modifyGet_eq_ok, Prod.mk.injEq] at h
  exact h.2.symm

theorem quiet_updateConversation {id : Uuid} {f : EmailConversation → EmailConversation}
    {keep : ∀ c, (f c).id = c.id} (hf : ∀ c, c.topicType.isSome → (f c).topicType.isSome) :
    Quiet (updateConversation id f keep : Transaction Digest _) := by
  intro db r db' h
  obtain ⟨-, rfl⟩ := updateConversation_eq_ok h
  exact .of_messages_eq le_rfl rfl (.update hf) rfl rfl rfl rfl rfl

theorem quiet_updateConversations {p : EmailConversation → Bool}
    {f : EmailConversation → EmailConversation} {keep : ∀ c, (f c).id = c.id}
    (hf : ∀ c, c.topicType.isSome → (f c).topicType.isSome) :
    Quiet (updateConversations p f keep : Transaction Digest _) := by
  intro db n db' h
  rw [updateConversations_eq_ok h]
  exact .of_messages_eq le_rfl rfl (.update hf) rfl rfl rfl rfl rfl

theorem quiet_findConversationOrThrow (id : Uuid) :
    Quiet (findConversationOrThrow id : Transaction Digest _) :=
  .bind .get fun _ => .orThrow _ _

theorem createConversation_eq_ok {c : EmailConversation} {db db' : Database Digest} {u : Unit}
    (h : createConversation c db = .ok (u, db')) :
    ∃ table, db.conversations.insert? c = some table ∧
    db' = { db with conversations := table } := by
  simp only [createConversation, bind_eq_ok, checkTexts_eq_ok, insertRow_eq_ok] at h
  obtain ⟨_, _, ⟨-, rfl⟩, _, _, hcheck, table, ht, rfl⟩ := h
  rw [checkConversation_eq_ok hcheck] at ht ⊢
  exact ⟨table, ht, rfl⟩

theorem quiet_appendConversationEvent (config : Config) (input : ConversationEventInput) :
    Quiet (appendConversationEvent config input : Transaction Digest _) := by
  unfold appendConversationEvent
  split
  · refine .bind (quiet_updateConversation fun _ h => h) fun c => .bind .get fun db =>
      .bind (.ensure _ _) fun _ => .bind quiet_freshId fun id => .bind (quiet_insertRow ?_) fun _ =>
        .bind (quiet_insertRow ?_) fun _ => .pure _
    · exact fun db table _ => .of_messages_eq le_rfl rfl (.of_eq rfl) rfl rfl rfl rfl rfl
    · exact fun db table _ => .of_messages_eq le_rfl rfl (.of_eq rfl) rfl rfl rfl rfl rfl
  · exact .pure _

theorem quiet_applyAutomaticState (id : Uuid) (state : ConversationState) (changedAt : Time) :
    Quiet (applyAutomaticState id state changedAt : Transaction Digest _) :=
  .bind (quiet_updateConversations fun _ h => h) fun _ => .pure _

theorem quiet_markConversationTerminated (id : Uuid) (changedAt : Time) :
    Quiet (markConversationTerminated id changedAt : Transaction Digest _) :=
  .bind (quiet_updateConversations fun _ h => h) fun _ => .pure _

theorem quiet_lockAllowedEmailIdentities (fromAddress replyTo : JsString) :
    Quiet (lockAllowedEmailIdentities fromAddress replyTo : Transaction Digest _) :=
  .bind .get fun _ => .pure _

theorem quiet_lockAllowedEmailIdentity (address : JsString) (role : EmailAddressRole) :
    Quiet (lockAllowedEmailIdentity address role : Transaction Digest _) :=
  .bind .get fun _ => .pure _

/-! ### Delivery reports -/

theorem quiet_reportDelivery (config : Config) (before : EmailMessage Digest) (id : Uuid)
    (state : EmailDeliveryState) (time : Time) :
    Quiet (reportDelivery config before id state time) := by
  refine .bind .get fun db => ?_
  have hterminate : Quiet (do
      let stateChanged ← markConversationTerminated id time
      if stateChanged then
        let _ ← appendConversationEvent config
          { conversationId := id
            type := .stateChanged
            occurredAt := time
            actor := .system
            cause := js "unreachable_delivery"
            state := some ((db.conversations.get? id).map EmailConversation.state, .terminated) }
        pure ()
      else pure () : Transaction Digest Unit) :=
    .bind (quiet_markConversationTerminated _ _) fun _ =>
      .ite (.bind (quiet_appendConversationEvent _ _) fun _ => .pure _) (.pure _)
  exact .ite (.bind (quiet_appendConversationEvent _ _) fun _ => .ite hterminate (.pure _))
    (.ite hterminate (.pure _))

theorem quiet_projectOutboundDeliveryState (config : Config) (resendEmailId : JsString) :
    Quiet (projectOutboundDeliveryStateForResendEmail config resendEmailId :
      Transaction Digest _) := by
  refine .bind .get fun db => ?_
  dsimp only
  split
  · exact .pure _
  · refine .bind (quiet_updateMessages (fun _ => rfl) fun _ => rfl) fun _ => ?_
    split
    · exact .pure _
    · split
      · exact .pure _
      · exact quiet_reportDelivery _ _ _ _ _

theorem quiet_reconcileAll (config : Config) (ids : List JsString) :
    Quiet (reconcileAll config ids : Transaction Digest _) := by
  induction ids with
  | nil => exact .pure _
  | cons id ids ih => exact .bind (quiet_projectOutboundDeliveryState _ _) fun _ => ih

/-! ### Attachments -/

/-- A statement that changes attachments and tombstones only. -/
theorem Background.of_files {db : Database Digest} {attachments : Table EmailAttachment.id}
    {tombstones : Table StoredObjectTombstone.id} {n : Uuid} (hn : db.nextId ≤ n) :
    Background db { db with nextId := n, attachments := attachments, tombstones := tombstones } :=
  .of_messages_eq hn rfl (.of_eq rfl) rfl rfl rfl

/-- What the trigger does: it writes tombstones only, and only for the given keys. -/
def Tombstoned (keys : List StorageKey) (db db' : Database Digest) : Prop :=
  ∃ n tombstones, db.nextId ≤ n ∧ db' = { db with nextId := n, tombstones := tombstones } ∧
    ∀ t' ∈ tombstones, (∃ t ∈ db.tombstones, t.storageKey = t'.storageKey) ∨ t'.storageKey ∈ keys

theorem tombstoneFor_tombstoned (now : Time) (key : StorageKey) (db : Database Digest) :
    Tombstoned [key] db (tombstoneFor now key db) := by
  unfold tombstoneFor
  split
  · exact ⟨_, _, le_rfl, rfl, fun t ht => .inl ⟨t, ht, rfl⟩⟩
  · split
    · exact ⟨_, _, le_rfl, rfl, fun t ht => .inl ⟨t, ht, rfl⟩⟩
    next tombstones hinsert =>
      refine ⟨_, _, Nat.le_succ _, rfl, fun t ht => ?_⟩
      rcases (Table.mem_insert? hinsert).mp ht with h | rfl
      · exact .inl ⟨t, h, rfl⟩
      · exact .inr List.mem_cons_self

theorem foldl_tombstoneFor_tombstoned (now : Time) (keys : List StorageKey) (db : Database Digest) :
    Tombstoned keys db (keys.foldl (fun db key => tombstoneFor now key db) db) := by
  induction keys generalizing db with
  | nil => exact ⟨_, _, le_rfl, rfl, fun t ht => .inl ⟨t, ht, rfl⟩⟩
  | cons key keys ih =>
      obtain ⟨n, tombstones, hn, heq, ht⟩ := tombstoneFor_tombstoned now key db
      obtain ⟨n', tombstones', hn', heq', ht'⟩ := ih (tombstoneFor now key db)
      rw [heq] at hn' heq' ht'
      rw [List.foldl_cons, heq]
      refine ⟨n', tombstones', hn.trans hn', heq', fun t h => ?_⟩
      rcases ht' t h with ⟨u, hu, hut⟩ | h
      · rcases ht u hu with hv | hv
        · exact .inl (hut ▸ hv)
        · exact .inr (hut ▸ List.mem_append_left keys hv)
      · exact .inr (List.mem_cons_of_mem _ h)

theorem deleteAttachments_eq (now : Time) (p : EmailAttachment → Bool) (db : Database Digest) :
    ∃ n tombstones, db.nextId ≤ n ∧ deleteAttachments now p db =
        { db with nextId := n, tombstones := tombstones, attachments := db.attachments.delete p } ∧
      ∀ t' ∈ tombstones, (∃ t ∈ db.tombstones, t.storageKey = t'.storageKey) ∨
        ∃ a ∈ db.attachments, p a = true ∧ a.storageKey = t'.storageKey := by
  unfold deleteAttachments
  obtain ⟨n, tombstones, hn, heq, ht⟩ := foldl_tombstoneFor_tombstoned now
    ((db.attachments.select p).map EmailAttachment.storageKey) db
  simp only [heq]
  refine ⟨n, tombstones, hn, rfl, fun t h => ?_⟩
  rcases ht t h with h | h
  · exact .inl h
  · obtain ⟨a, ha, hk⟩ := List.mem_map.mp h
    exact .inr ⟨a, (Table.mem_select.mp ha).1, (Table.mem_select.mp ha).2, hk⟩

/-- A deletion of attachments releases their storage keys. -/
theorem deleteAttachments_files (now : Time) (p : EmailAttachment → Bool) (db : Database Digest) :
    FileFrame db (deleteAttachments now p db) := by
  obtain ⟨n, tombstones, hn, heq, ht⟩ := deleteAttachments_eq now p db
  intro hk
  rw [heq]
  have hsub : ∀ a ∈ db.attachments.delete p, a ∈ db.attachments := fun a h =>
    (Table.mem_delete.mp h).1
  refine ⟨⟨fun a h => ?_, fun a ha b hb => hk.injective a (hsub a ha) b (hsub b hb)⟩,
    fun a h => .inl ⟨a, hsub a h, .refl a⟩, fun t h => ?_⟩
  · exact ⟨(hk.drawn a (hsub a h)).1.trans_le hn, (hk.drawn a (hsub a h)).2.trans_le hn⟩
  · rcases ht t h with h | ⟨a, ha, hpa, hak⟩
    · exact .inl h
    · refine .inr ⟨.inl ⟨a, ha, hak⟩, fun b hb hbk => ?_⟩
      have hba : b = a := hk.injective b (hsub b hb) a ha (hbk.trans hak.symm)
      have hpb := (Table.mem_delete.mp hb).2
      rw [hba, hpa] at hpb
      cases hpb

theorem quiet_updateAttachments {p : EmailAttachment → Bool} {f : EmailAttachment → EmailAttachment}
    {keep : ∀ a, (f a).id = a.id} (hf : ∀ a : EmailAttachment, a.SameFile (f a)) :
    Quiet (updateAttachments p f keep : Transaction Digest _) := by
  intro db n db' h
  rw [updateAttachments, modifyGet_eq_ok, Prod.mk.injEq] at h
  obtain ⟨-, rfl⟩ := h
  refine { Background.of_files le_rfl with files := fun hk => ?_ }
  have hsame : ∀ a' ∈ db.attachments.update p f keep, ∃ a ∈ db.attachments, a.SameFile a' := by
    intro a' ha'
    obtain ⟨a, ha, rfl⟩ := Table.mem_update.mp ha'
    refine ⟨a, ha, ?_⟩
    split
    · exact hf a
    · exact .refl a
  refine ⟨⟨fun a' ha' => ?_, fun a' ha' b' hb' heq => ?_⟩, fun a' ha' => .inl (hsame a' ha'),
    fun t ht => .inl ⟨t, ht, rfl⟩⟩
  · obtain ⟨a, ha, hs⟩ := hsame a' ha'
    rw [hs.id, hs.storageKey]
    exact hk.drawn a ha
  · obtain ⟨a, ha, hs⟩ := hsame a' ha'
    obtain ⟨b, hb, hs'⟩ := hsame b' hb'
    have hab : a = b := hk.injective a ha b hb (by rw [← hs.storageKey, ← hs'.storageKey, heq])
    exact Table.key_inj ha' hb' (by rw [hs.id, hs'.id, hab])

theorem createAttachment_eq_ok {a : EmailAttachment} {db db' : Database Digest} {u : Unit}
    (h : createAttachment a db = .ok (u, db')) :
    (∀ b ∈ db.attachments, b.storageKey ≠ a.storageKey) ∧
      ∃ table, db.attachments.insert? a = some table ∧ db' = { db with attachments := table } := by
  simp only [createAttachment, bind_eq_ok, checkTexts_eq_ok, get_eq_ok, ensure_eq_ok,
    insertRow_eq_ok] at h
  obtain ⟨_, _, ⟨-, rfl⟩, _, _, ⟨rfl, rfl⟩, _, _, ⟨hkey, rfl⟩, _, _, ⟨_, rfl⟩, table, ht, rfl⟩ := h
  refine ⟨fun b hb hbk => ?_, table, ht, rfl⟩
  simp only [Bool.not_eq_true', List.any_eq_false, beq_iff_eq] at hkey
  exact hkey b hb hbk

theorem createAttachment_bound {a : EmailAttachment} {db db' : Database Digest} {u : Unit}
    (h : createAttachment a db = .ok (u, db')) :
    ∀ m, a.messageId = some m → (db.messages.get? m).isSome := by
  simp only [createAttachment, bind_eq_ok, checkTexts_eq_ok, get_eq_ok, ensure_eq_ok,
    insertRow_eq_ok] at h
  obtain ⟨_, _, ⟨-, rfl⟩, _, _, ⟨rfl, rfl⟩, _, _, ⟨-, rfl⟩, _, _, ⟨hbound, rfl⟩, -⟩ := h
  intro m hm
  simpa [hm] using hbound

/-- A pending attachment whose identifier and storage key are drawn with it. -/
theorem quiet_createAttachment (row : Uuid → Uuid → EmailAttachment) (created : Bool)
    (hid : ∀ id key, (row id key).id = id) (hkey : ∀ id key, (row id key).storageKey.id = key)
    (hstate : ∀ id key, (row id key).state = .pending)
    (htoken : ∀ id key, (row id key).leaseToken = none) :
    Quiet (do
      let id ← freshId
      let key ← freshId
      createAttachment (row id key)
      pure created : Transaction Digest Bool) := by
  intro db u db' h
  simp only [bind_eq_ok, freshId_eq_ok, pure_eq_ok] at h
  obtain ⟨_, _, ⟨rfl, rfl⟩, _, _, ⟨rfl, rfl⟩, _, _, hc, rfl, rfl⟩ := h
  obtain ⟨hfree, table, ht, rfl⟩ := createAttachment_eq_ok hc
  have hn : db.nextId ≤ db.nextId + 1 + 1 := Nat.le_add_right _ 2
  have hb : Background db { db with nextId := db.nextId + 1 + 1, attachments := table } :=
    .of_messages_eq hn rfl (.of_eq rfl) rfl rfl rfl
  refine { hb with files := fun hk => ?_ }
  have hmem : ∀ a', a' ∈ table → a' ∈ db.attachments ∨ a' = row db.nextId (db.nextId + 1) :=
    fun a' h => (Table.mem_insert? ht).mp h
  refine ⟨⟨fun a' ha' => ?_, fun a' ha' b' hb' heq => ?_⟩, fun a' ha' => ?_,
    fun t ht => .inl ⟨t, ht, rfl⟩⟩
  · rcases hmem a' ha' with h | rfl
    · exact ⟨(hk.drawn a' h).1.trans_le hn, (hk.drawn a' h).2.trans_le hn⟩
    · rw [hid, hkey]
      exact ⟨Nat.lt_add_of_pos_right Nat.two_pos, Nat.lt_succ_self _⟩
  · rcases hmem a' ha' with h | rfl
    · rcases hmem b' hb' with h' | rfl
      · exact hk.injective a' h b' h' heq
      · exact absurd heq (hfree a' h)
    · rcases hmem b' hb' with h' | rfl
      · exact absurd heq.symm (hfree b' h')
      · rfl
  · rcases hmem a' ha' with h | rfl
    · exact .inl ⟨a', h, .refl a'⟩
    · exact .inr ⟨hstate _ _, htoken _ _, by rw [hid], by rw [hkey]; exact Nat.le_succ _⟩

theorem quiet_countCreated {α : Type} {create : α → Transaction Digest Bool}
    (h : ∀ a, Quiet (create a)) (as : List α) : Quiet (countCreated create as) := by
  induction as with
  | nil => exact .pure _
  | cons a as ih => exact .bind (h a) fun _ => .bind ih fun _ => .pure _

theorem quiet_projectInboundAttachments (toLowerCase : JsString → JsString) (config : Config)
    (now : Time) (messageId : Uuid) (resendEmailId : JsString)
    (attachments : List ResendReceivedAttachment) :
    Quiet (projectInboundAttachments toLowerCase config now messageId resendEmailId
      attachments : Transaction Digest _) := by
  refine .ite (quiet_countCreated (fun a => .bind .get fun db => ?_) _) (.pure _)
  exact .ite (.pure _) (quiet_createAttachment _ _ (fun _ _ => rfl) (fun _ _ => rfl)
    (fun _ _ => rfl) fun _ _ => rfl)

theorem quiet_setContentIds (messageId : Uuid) (refs : List EmailAttachmentRefInput) :
    Quiet (setContentIds messageId refs : Transaction Digest _) := by
  induction refs with
  | nil => exact .pure _
  | cons ref refs ih =>
      exact .bind (quiet_updateAttachments fun _ => ⟨rfl, rfl, rfl, rfl⟩) fun _ => ih

theorem quiet_claimAttachmentsForMessage (config : Config) (messageId : Uuid)
    (refs : Option (List EmailAttachmentRefInput)) :
    Quiet (claimAttachmentsForMessage config messageId refs : Transaction Digest _) := by
  unfold claimAttachmentsForMessage
  split
  · exact .pure _
  · exact .pure _
  · exact .bind (.ensure _ _) fun _ =>
      .bind (quiet_updateAttachments fun _ => ⟨rfl, rfl, rfl, rfl⟩) fun _ =>
        .bind (.ensure _ _) fun _ => .bind (quiet_setContentIds _ _) fun _ => .bind .get fun _ =>
        .bind (.ensure _ _) fun _ => .pure _

/-! ### Merging -/

theorem quiet_createRoutingAlias (id : Uuid) (source : EmailConversation) :
    Quiet (createRoutingAlias id source : Transaction Digest _) := by
  refine .bind .get fun db => ?_
  split
  · exact .pure _
  · exact .ite (.pure _) (.bind quiet_freshId fun _ => quiet_insertRow fun _ _ _ =>
      .of_messages_eq le_rfl rfl (.of_eq rfl) rfl rfl rfl rfl rfl)

theorem quiet_preserveMergedConversationState (target : EmailConversation)
    (sources : List EmailConversation) :
    Quiet (preserveMergedConversationState target sources : Transaction Digest _) := by
  unfold preserveMergedConversationState
  split
  · exact .pure _
  · exact .bind (.modify fun _ => .of_messages_eq le_rfl rfl (.of_eq rfl) rfl rfl rfl rfl rfl)
      fun _ =>
      .bind (.forM fun _ _ => quiet_createRoutingAlias _ _) fun _ =>
        .bind (quiet_updateConversation fun _ h => h) fun _ => .pure _

theorem quiet_recordConversationMerges (config : Config) (target : Uuid) (sources : List Uuid)
    (occurredAt : Time) :
    Quiet (recordConversationMerges config target sources occurredAt : Transaction Digest _) :=
  .bind (.forM fun _ _ => .bind (quiet_appendConversationEvent _ _) fun _ => .pure _) fun _ =>
    .bind (quiet_appendConversationEvent _ _) fun _ => .pure _

theorem quiet_adoptReplies (parentMessageId : Uuid) (p : EmailMessage Digest → Bool) :
    Quiet (adoptReplies parentMessageId p) :=
  .bind (quiet_updateMessages (fun _ => rfl) fun _ => rfl) fun _ => .pure _

theorem quiet_refreshLastMessageAt (id : Uuid) :
    Quiet (refreshLastMessageAt id : Transaction Digest _) := by
  refine .bind .get fun db => ?_
  split
  · exact .pure _
  · exact .bind (quiet_updateConversation fun _ h => h) fun _ => .pure _

/-- The sources of a merge: they have no topic. -/
def Vacant (sources : List Uuid) (db : Database Digest) : Prop := ∀ c ∈ sources, ¬db.Assigned c

/-- No message belongs to the conversations. -/
def Emptied (sources : List Uuid) (db : Database Digest) : Prop :=
  ∀ m ∈ db.messages, m.conversationId.any sources.contains = false

/-- What a transaction between the move of the messages and the deletion of their former
conversations may do: it assigns no conversation and moves no message. -/
structure KeepsVacant (db db' : Database Digest) : Prop where
  assigned : ∀ c, db'.Assigned c → db.Assigned c
  threads : ∀ m' ∈ db'.messages, ∃ m ∈ db.messages, m.id = m'.id ∧
    m'.conversationId = m.conversationId

instance : Std.Refl (@KeepsVacant Digest) where
  refl _ := ⟨fun _ h => h, fun m hm => ⟨m, hm, rfl, rfl⟩⟩

instance : IsTrans (Database Digest) KeepsVacant where
  trans a b c hab hbc :=
    { assigned := fun d h => hab.assigned d (hbc.assigned d h)
      threads := by
        intro m hm
        obtain ⟨m₁, hm₁, hid₁, h₁⟩ := hbc.threads m hm
        obtain ⟨m₂, hm₂, hid₂, h₂⟩ := hab.threads m₁ hm₁
        exact ⟨m₂, hm₂, hid₂.trans hid₁, h₁.trans h₂⟩ }

theorem KeepsVacant.vacant {sources : List Uuid} {db db' : Database Digest} (h : KeepsVacant db db')
    (hv : Vacant sources db) : Vacant sources db' :=
  fun c hc ha => hv c hc (h.assigned c ha)

theorem KeepsVacant.emptied {sources : List Uuid} {db db' : Database Digest}
    (h : KeepsVacant db db') (he : Emptied sources db) : Emptied sources db' := by
  intro m' hm'
  obtain ⟨m, hm, -, heq⟩ := h.threads m' hm'
  rw [heq]
  exact he m hm

theorem KeepsVacant.of_eq {db db' : Database Digest} (hc : db'.conversations = db.conversations)
    (hm : db'.messages = db.messages) : KeepsVacant db db' where
  assigned := fun c h => by simpa [Database.Assigned, hc] using h
  threads := fun m h => ⟨m, hm ▸ h, rfl, rfl⟩

theorem keepsVacant_updateConversation {id : Uuid} {f : EmailConversation → EmailConversation}
    {keep : ∀ c, (f c).id = c.id} (hf : ∀ c, (f c).topicType = c.topicType) :
    Preserves KeepsVacant (updateConversation id f keep : Transaction Digest _) := by
  intro db r db' h
  obtain ⟨-, rfl⟩ := updateConversation_eq_ok h
  refine ⟨?_, fun m hm => ⟨m, hm, rfl, rfl⟩⟩
  rintro c ⟨row, hrow, ht⟩
  simp only [Table.get?_update, Option.map_eq_some_iff] at hrow
  obtain ⟨row', hrow', rfl⟩ := hrow
  refine ⟨row', hrow', ?_⟩
  split at ht
  · rwa [hf] at ht
  · exact ht

theorem keepsVacant_appendConversationEvent (config : Config) (input : ConversationEventInput) :
    Preserves KeepsVacant (appendConversationEvent config input : Transaction Digest _) := by
  unfold appendConversationEvent
  split
  · refine .bind (keepsVacant_updateConversation fun _ => rfl) fun c => .bind .get fun db =>
      .bind (.ensure _ _) fun _ => .bind ?_ fun id => .bind ?_ fun _ => .bind ?_ fun _ => .pure _
    · intro db id db' h
      obtain ⟨-, rfl⟩ := freshId_eq_ok.mp h
      exact .of_eq rfl rfl
    · intro db u db' h
      obtain ⟨_, -, rfl⟩ := insertRow_eq_ok.mp h
      exact .of_eq rfl rfl
    · intro db u db' h
      obtain ⟨_, -, rfl⟩ := insertRow_eq_ok.mp h
      exact .of_eq rfl rfl
  · exact .pure _

theorem keepsVacant_recordConversationMerges (config : Config) (target : Uuid) (sources : List Uuid)
    (occurredAt : Time) :
    Preserves KeepsVacant
    (recordConversationMerges config target sources occurredAt : Transaction Digest _) :=
  .bind (.forM fun _ _ => .bind (keepsVacant_appendConversationEvent _ _) fun _ => .pure _) fun _ =>
    .bind (keepsVacant_appendConversationEvent _ _) fun _ => .pure _

theorem keepsVacant_adoptReplies (parentMessageId : Uuid) (p : EmailMessage Digest → Bool) :
    Preserves KeepsVacant (adoptReplies parentMessageId p) := by
  refine .bind ?_ fun _ => .pure _
  intro db n db' h
  obtain ⟨-, rfl⟩ := updateMessages_eq_ok.mp h
  refine ⟨fun _ h => h, fun m' hm' => ?_⟩
  rw [Table.mem_update] at hm'
  obtain ⟨m, hm, rfl⟩ := hm'
  refine ⟨m, hm, ?_⟩
  split <;> exact ⟨rfl, rfl⟩

theorem deleteConversations_files (now : Time) (ids : List Uuid) (db : Database Digest) :
    FileFrame db (deleteConversations now ids db) := by
  intro hk
  have h := deleteAttachments_files now (fun a => a.messageId.any
    ((db.messages.select fun m => m.conversationId.any ids.contains).map
      EmailMessage.id).contains) db hk
  exact ⟨⟨h.keys.drawn, h.keys.injective⟩, h.attachments,
    fun t ht => (h.tombstones t ht).imp_right fun hr => ⟨hr.origin, hr.gone⟩⟩

/-- Deleting conversations without a topic to which no message belongs. -/
theorem deleteConversations_passive (now : Time) {ids : List Uuid} {db : Database Digest}
    (hv : Vacant ids db) (he : Emptied ids db) : Passive db (deleteConversations now ids db) := by
  have hgone : (db.messages.select fun m => m.conversationId.any ids.contains) = [] := by
    rw [Table.select, List.filter_eq_nil_iff]
    intro m hm
    simp [he m hm]
  have hdelete : ∀ k, (db.messages.delete fun m => m.conversationId.any ids.contains).get? k =
      db.messages.get? k := by
    intro k
    rw [Table.get?_delete]
    cases hk : db.messages.get? k with
    | none => rfl
    | some m => simp [he m (Table.mem_of_get? hk)]
  obtain ⟨n, tombstones, hn, heq, -⟩ := deleteAttachments_eq now
    (fun a => a.messageId.any (([] : List Uuid)).contains) db
  have hmessages : ∀ k, (deleteConversations now ids db).messages.get? k = db.messages.get? k := by
    intro k
    simp only [deleteConversations, hgone, List.map_nil, heq, Table.get?_update, hdelete]
    cases db.messages.get? k with
    | none => rfl
    | some m =>
        have hany : m.parentMessageId.any (([] : List Uuid)).contains = false := by
          cases m.parentMessageId <;> rfl
        simp [hany]
  have hview : ∀ k, (deleteConversations now ids db).view? k = db.view? k := by
    intro k
    rw [Database.view?, hmessages k, Database.view?]
  exact
    { nextId_le := by simpa only [deleteConversations, hgone, List.map_nil, heq] using hn
      view := fun id v h => by rw [hview, h]
      fresh := fun id v h h' => by rw [hview, h'] at h; cases h
      conversations :=
        { assigned := by
            rintro c ⟨row, hrow, ht⟩
            refine ⟨row, ?_, ht⟩
            simp only [deleteConversations, hgone, List.map_nil, heq, Table.get?_delete, hrow]
            have hid := Table.key_of_get? hrow
            have : ids.contains row.id = false := by
              by_contra hcon
              simp only [Bool.not_eq_false, List.contains_iff_mem] at hcon
              exact hv row.id hcon ⟨row, hid ▸ hrow, ht⟩
            simpa using this
          created := by
            intro c hc
            simp only [deleteConversations, hgone, List.map_nil, heq, Table.get?_delete] at hc
            obtain ⟨row, hrow⟩ := Option.isSome_iff_exists.mp hc
            exact .inl (by simp [(Option.filter_eq_some_iff.mp hrow).1]) }
      files := deleteConversations_files now ids db
      threads := fun id m m' h h' => .inl (by rw [hmessages, h] at h'; cases h'; rfl)
      batches := by simp only [deleteConversations, hgone, List.map_nil, heq]
      entries := by
        simp only [deleteConversations, hgone, List.map_nil, heq]
        apply Table.ext_rows
        simp [Table.delete]
      attachmentEntries := by
        simp only [deleteConversations, hgone, List.map_nil, heq]
        apply Table.ext_rows
        simp [Table.delete] }

theorem moveMessages_passive {target : Uuid} {sources : List Uuid} {db db' : Database Digest}
    {u : Unit} (hv : Vacant sources db) (htarget : target ∉ sources)
    (h : moveMessages target sources db = .ok (u, db')) : Passive db db' ∧ Emptied sources db' := by
  simp only [moveMessages, bind_eq_ok, updateMessages_eq_ok, pure_eq_ok] at h
  obtain ⟨_, _, ⟨-, rfl⟩, -, rfl⟩ := h
  constructor
  · refine .of_update (fun m hm => ?_) fun m hm => .inr ?_
    · cases hc : m.conversationId with
      | none => simp [hc] at hm
      | some c => simp [EmailMessage.sendView, hc, buildSendEmailInput, getRecipients, getTags]
    · cases hc : m.conversationId with
      | none => simp [hc] at hm
      | some c => exact ⟨c, rfl, hv c (by simpa [hc] using hm)⟩
  · intro m' hm'
    rw [Table.mem_update] at hm'
    obtain ⟨m, -, rfl⟩ := hm'
    split
    · simpa using htarget
    · simp_all

theorem absorbConversations_passive {config : Config} {now occurredAt : Time} {target : Uuid}
    {sources : List Uuid} {adopt : Transaction Digest Unit} (hadopt : Quiet adopt)
    (hkeep : Preserves KeepsVacant adopt) (htarget : target ∉ sources) {db db' : Database Digest}
    {u : Unit} (hv : Vacant sources db)
    (h : absorbConversations config now target sources occurredAt adopt db = .ok (u, db')) :
    Passive db db' := by
  simp only [absorbConversations, bind_eq_ok, modify_eq_ok] at h
  obtain ⟨_, db₁, h₁, _, db₂, h₂, _, db₃, h₃, rfl⟩ := h
  obtain ⟨hb₁, he₁⟩ := moveMessages_passive hv htarget h₁
  have hk₁ : Vacant sources db₁ := by
    simp only [moveMessages, bind_eq_ok, updateMessages_eq_ok, pure_eq_ok] at h₁
    obtain ⟨_, _, ⟨-, rfl⟩, -, rfl⟩ := h₁
    exact hv
  have hk₂ := keepsVacant_recordConversationMerges config target sources occurredAt h₂
  have hk₃ := hkeep h₃
  have hb₄ := deleteConversations_passive now (hk₃.vacant (hk₂.vacant hk₁))
    (hk₃.emptied (hk₂.emptied he₁))
  exact hb₁.trans ((quiet_recordConversationMerges _ _ _ _ h₂).trans ((hadopt h₃).trans hb₄))

end ResendConversation
