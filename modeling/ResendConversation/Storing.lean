import ResendConversation.Projection

/-! # The send transactions

What a committed send transaction does to the send lanes: it stores one outbound message
under a free idempotency key, with its outbox entry when the request is queued (`Stored`),
and it opens a conversation for an opening or reopens one all of whose messages failed
(`Room`). -/

namespace ResendConversation

open Foundation Tx

variable {Digest : Type}

/-! ### The insertion -/

/-- The view of the message that a request stores. -/
structure SendView.Intended (ctx : SendContext Digest) (v : SendView Digest) : Prop where
  kind : v.kind = ctx.request.kind
  direction : v.direction = .outbound
  state : v.state = .pending
  resendEmailId : v.resendEmailId = none
  idempotencyKey : v.idempotencyKey = some ctx.idempotencyKey
  requestHash : v.requestHash = some ctx.requestHash
  createdAt : v.createdAt = ctx.createdAt

/-- The entry of a queued message without attachments. -/
def batchEntryFor (ctx : SendContext Digest) (id : Uuid) (e : EmailOutboxEntry) : Prop :=
  ctx.request.queued = true ∧ ctx.request.hasAttachments = false ∧
    e = { messageId := id, queuedAt := ctx.createdAt }

/-- The entry of a queued message with attachments. -/
def attachmentEntryFor (ctx : SendContext Digest) (id : Uuid) (e : EmailAttachmentOutboxEntry) :
    Prop :=
  ctx.request.queued = true ∧ ctx.request.hasAttachments = true ∧
    e = { messageId := id, queuedAt := ctx.createdAt, nextAttemptAt := ctx.createdAt }

/-- What `createOutbound` does. -/
structure OutboundCreated (ctx : SendContext Digest) (row : Uuid → EmailMessage Digest)
    (db db' : Database Digest) : Prop where
  nextId : db'.nextId = db.nextId + 1
  get? : ∀ k, db'.messages.get? k =
    if db.nextId = k then some (row db.nextId) else db.messages.get? k
  free : db.messages.get? db.nextId = none
  key : ∀ m ∈ db.messages, m.idempotencyKey ≠ some ctx.idempotencyKey
  conversations : db'.conversations = db.conversations
  batches : db'.outboxBatches = db.outboxBatches
  attachments : db'.attachments = db.attachments
  tombstones : db'.tombstones = db.tombstones
  entries : ∀ e, e ∈ db'.outboxEntries ↔ e ∈ db.outboxEntries ∨ batchEntryFor ctx db.nextId e
  attachmentEntries : ∀ e, e ∈ db'.attachmentOutboxEntries ↔
    e ∈ db.attachmentOutboxEntries ∨ attachmentEntryFor ctx db.nextId e

theorem createOutbound_eq_ok {ctx : SendContext Digest} {row : Uuid → EmailMessage Digest}
    (hid : ∀ id, (row id).id = id) (hkey : ∀ id, (row id).idempotencyKey = some ctx.idempotencyKey)
    {db db' : Database Digest} {id : Uuid} (h : createOutbound ctx row db = .ok (id, db')) :
    id = db.nextId ∧ OutboundCreated ctx row db db' := by
  simp only [createOutbound, bind_eq_ok, pure_eq_ok] at h
  obtain ⟨m, db₁, hm, _, _, he, rfl, rfl⟩ := h
  obtain ⟨rfl, hc⟩ := createMessage_eq_ok hm
  have hget := hc.get?
  have hfree := hc.free
  obtain ⟨table, -, rfl⟩ := hc.table
  simp only [hid] at hget hfree he ⊢
  refine ⟨trivial, ?_⟩
  have hkeyfree : ∀ m ∈ db.messages, m.idempotencyKey ≠ some ctx.idempotencyKey := by
    intro m hm hk
    refine hc.key m hm ?_ (by simp [hkey]) (by rw [hk, hkey])
    rintro heq
    rw [hid] at heq
    exact Table.get?_eq_none.mp hfree m hm heq
  unfold createOutboxEntry at he
  split at he
  next hq =>
    split at he
    next ha =>
      obtain ⟨t, ht, rfl⟩ := insertRow_eq_ok.mp he
      refine ⟨rfl, hget, hfree, hkeyfree, rfl, rfl, rfl, rfl, ?_, ?_⟩
      · intro e
        simp [batchEntryFor, ha]
      · intro e
        rw [Table.mem_insert? ht]
        simp [attachmentEntryFor, hq, ha]
    next ha =>
      obtain ⟨t, ht, rfl⟩ := insertRow_eq_ok.mp he
      refine ⟨rfl, hget, hfree, hkeyfree, rfl, rfl, rfl, rfl, ?_, ?_⟩
      · intro e
        rw [Table.mem_insert? ht]
        simp [batchEntryFor, hq, ha]
      · intro e
        simp [attachmentEntryFor, ha]
  next hq =>
    obtain ⟨-, rfl⟩ := pure_eq_ok.mp he
    refine ⟨rfl, hget, hfree, hkeyfree, rfl, rfl, rfl, rfl, ?_, ?_⟩
    · intro e
      simp [batchEntryFor, hq]
    · intro e
      simp [attachmentEntryFor, hq]

/-! ### The transaction -/

/-- What a committed send transaction does to the send lanes. -/
structure Stored (ctx : SendContext Digest) (db db' : Database Digest) (id : Uuid)
    (v : SendView Digest) : Prop where
  nextId_le : db.nextId ≤ id
  lt_nextId : id < db'.nextId
  intended : v.Intended ctx
  stored : db'.view? id = some v
  view : ∀ k w, db.view? k = some w → db'.view? k = some w
  fresh : ∀ k w, db'.view? k = some w → db.view? k = none →
    k = id ∨ (db.nextId ≤ k ∧ k < db'.nextId ∧ w.Inbound)
  key : ∀ k w, db.view? k = some w → w.idempotencyKey ≠ some ctx.idempotencyKey
  conversations : ConversationFrame db db'
  batches : db'.outboxBatches = db.outboxBatches
  entries : ∀ e, e ∈ db'.outboxEntries ↔ e ∈ db.outboxEntries ∨ batchEntryFor ctx id e
  attachmentEntries : ∀ e, e ∈ db'.attachmentOutboxEntries ↔
    e ∈ db.attachmentOutboxEntries ∨ attachmentEntryFor ctx id e
  files : FileFrame db db'

/-- The insertion between two transactions that leave the send lanes alone. -/
theorem OutboundCreated.stored {ctx : SendContext Digest} {row : Uuid → EmailMessage Digest}
    {db db₁ db₂ db' : Database Digest} (hrow : ∀ id, (row id).sendView.Intended ctx)
    (before : Passive db db₁) (h : OutboundCreated ctx row db₁ db₂) (after : Passive db₂ db') :
    Stored ctx db db' db₁.nextId (row db₁.nextId).sendView := by
  have hlt : db₁.nextId < db₂.nextId := h.nextId ▸ Nat.lt_succ_self _
  have hget : ∀ k, k ≠ db₁.nextId → db₂.view? k = db₁.view? k := by
    intro k hk
    rw [Database.view?, h.get?, if_neg (Ne.symm hk), Database.view?]
  have hnew : db₂.view? db₁.nextId = some (row db₁.nextId).sendView := by
    simp [Database.view?, h.get?]
  have hfree : db₁.view? db₁.nextId = none := Database.view?_eq_none.mpr h.free
  have hold : ∀ k w, db.view? k = some w → k ≠ db₁.nextId := by
    rintro k w hw rfl
    rw [before.view _ _ hw] at hfree
    cases hfree
  refine
    { nextId_le := before.nextId_le
      lt_nextId := hlt.trans_le after.nextId_le
      intended := hrow _
      stored := after.view _ _ hnew
      view := fun k w hw => after.view k w (by rw [hget k (hold k w hw)]; exact before.view k w hw)
      fresh := ?_
      key := ?_
      conversations := ?_
      batches := after.batches.trans (h.batches.trans before.batches)
      entries := ?_
      attachmentEntries := ?_
      files := ?_ }
  · intro k w hw hnone
    by_cases hk : k = db₁.nextId
    · exact .inl hk
    · refine .inr ?_
      cases h₂ : db₂.view? k with
      | none =>
          obtain ⟨hle, hlt', hin⟩ := after.fresh k w hw h₂
          exact ⟨before.nextId_le.trans (hlt.le.trans hle), hlt', hin⟩
      | some w' =>
          have hw' : w' = w := Option.some.inj ((after.view k w' h₂).symm.trans hw)
          rw [hget k hk] at h₂
          obtain ⟨hle, hlt', hin⟩ := before.fresh k w' h₂ hnone
          exact ⟨hle, hlt'.trans (hlt.trans_le after.nextId_le), hw' ▸ hin⟩
  · intro k w hw
    obtain ⟨m, hm, rfl⟩ := Database.view?_eq_some.mp (before.view k w hw)
    exact h.key m (Table.mem_of_get? hm)
  · exact before.conversations.trans before.nextId_le (hlt.le.trans after.nextId_le)
      ((ConversationFrame.of_eq h.conversations).trans hlt.le after.nextId_le after.conversations)
  · intro e
    rw [after.entries, h.entries, before.entries]
  · intro e
    rw [after.attachmentEntries, h.attachmentEntries, before.attachmentEntries]
  · exact before.files.trans before.nextId_le (hlt.le.trans after.nextId_le)
      ((FileFrame.of_eq hlt.le h.attachments h.tombstones).trans hlt.le after.nextId_le after.files)

/-! ### The four operations -/

/-- Where the message of an opening goes: into a conversation that the transaction opens, or
into an existing one all of whose messages failed. -/
inductive Room (db db' : Database Digest) (reopened : Option EmailConversation) (id : Uuid) : Prop
  | opened {c : Uuid} {m : EmailMessage Digest} (unassigned : ¬db.Assigned c)
      (assigned : db'.Assigned c) (stored : db'.messages.get? id = some m)
      (conversation : m.conversationId = some c)
  | reopened {c : EmailConversation} (conversation : reopened = some c)
      (found : (db.conversations.get? c.id).isSome)
      (failed : ∀ m ∈ db.messages, m.conversationId = some c.id → m.state = .failed)
      (stays : db.Assigned c.id → ∃ m, db'.messages.get? id = some m ∧ m.conversationId = some c.id)

/-- An outcome of a committed send transaction. -/
def StoredBy (ctx : SendContext Digest) (reopened : Option EmailConversation)
    (db db' : Database Digest) (id : Uuid) : Prop :=
  (∃ v, Stored ctx db db' id v) ∧ (ctx.request.isOpening → Room db db' reopened id)

theorem outboundMessage_intended (ctx : SendContext Digest) (id : Uuid) (sender : EmailIdentity)
    (recipients : List EmailIdentity) (subject : JsString) (text html : Option JsString)
    (tags : Option (List EmailTag)) :
    (outboundMessage ctx id sender recipients subject text html tags).sendView.Intended ctx :=
  ⟨rfl, rfl, rfl, rfl, rfl, rfl, rfl⟩

theorem quiet_appendIntentEvents (ctx : SendContext Digest) (conversationId messageId : Uuid)
    (stateBefore : ConversationState) (stateChanged : Bool) :
    Quiet (appendIntentEvents ctx conversationId messageId stateBefore stateChanged) :=
  .bind (quiet_appendConversationEvent _ _) fun _ =>
    .ite (.bind (quiet_appendConversationEvent _ _) fun _ => .pure _) (.pure _)

theorem createDirect_stored {ctx : SendContext Digest} {value : DirectEmailV2Input}
    {db db' : Database Digest} {id : Uuid} {queued : Bool} (hr : ctx.request = .direct queued value)
    (h : createDirect ctx value db = .ok (id, db')) : StoredBy ctx none db db' id := by
  simp only [createDirect, bind_eq_ok, ensure_eq_ok, pure_eq_ok] at h
  obtain ⟨_, db₁, h₁, _, _, ⟨-, rfl⟩, _, db₂, h₂, _, db₃, h₃, rfl, rfl⟩ := h
  obtain ⟨rfl, hc⟩ := createOutbound_eq_ok (fun _ => rfl) (fun _ => rfl) h₂
  refine ⟨⟨_, hc.stored (fun _ => outboundMessage_intended _ _ _ _ _ _ _ _)
    (quiet_lockAllowedEmailIdentity _ _ h₁) (quiet_claimAttachmentsForMessage _ _ _ h₃)⟩, ?_⟩
  simp [hr, SendRequest.isOpening]

theorem createReply_stored {ctx : SendContext Digest} {conversationId : Uuid}
    {value : MessageV2Input} {parent : ReplyParent} {db db' : Database Digest} {id : Uuid}
    {queued : Bool} (hr : ctx.request = .reply queued conversationId value)
    (h : createReply ctx conversationId value parent db = .ok (id, db')) :
    StoredBy ctx none db db' id := by
  simp only [createReply, bind_eq_ok, ensure_eq_ok, orThrow_eq_ok, pure_eq_ok] at h
  obtain ⟨current, db₁, h₁, _, db₂, h₂, _, _, ⟨-, rfl⟩, _, _, ⟨-, rfl⟩, _, _, ⟨-, rfl⟩, _, db₃,
      h₃, _, db₄, h₄,
    _, db₅, h₅, _, db₆, h₆, _, db₇, h₇, rfl, rfl⟩ := h
  obtain ⟨rfl, hc⟩ := createOutbound_eq_ok (fun _ => rfl) (fun _ => rfl) h₃
  have hupdate : Passive db₄ db₅ := by
    refine quiet_updateConversation ?_ h₅
    exact fun _ h => h
  have hafter : Passive db₄ db₇ := hupdate.trans
    ((quiet_applyAutomaticState _ _ _ h₆).trans (quiet_appendIntentEvents _ _ _ _ _ h₇))
  refine ⟨⟨_, hc.stored (fun _ => ⟨rfl, rfl, rfl, rfl, rfl, rfl, rfl⟩)
    ((quiet_findConversationOrThrow _ h₁).trans (quiet_lockAllowedEmailIdentities _ _ h₂))
    ((quiet_claimAttachmentsForMessage _ _ _ h₄).trans hafter)⟩, ?_⟩
  simp [hr, SendRequest.isOpening]

/-- The new message keeps an assigned conversation through the rest of its transaction. -/
theorem OutboundCreated.keeps_conversation {ctx : SendContext Digest}
    {row : Uuid → EmailMessage Digest} {db₁ db₂ db' : Database Digest} {c : Uuid}
    (h : OutboundCreated ctx row db₁ db₂) (after : Passive db₂ db')
    (hc : (row db₁.nextId).conversationId = some c) (ha : db₁.Assigned c) :
    ∃ m, db'.messages.get? db₁.nextId = some m ∧ m.conversationId = some c := by
  have hnew : db₂.messages.get? db₁.nextId = some (row db₁.nextId) := by simp [h.get?]
  obtain ⟨m, hm, -⟩ := Database.view?_eq_some.mp (after.view _ _ (Database.view?_of_get? hnew))
  refine ⟨m, hm, ?_⟩
  rcases after.threads _ _ _ hnew hm with heq | ⟨d, hd, hun⟩
  · rw [heq, hc]
  · rw [hc] at hd
    cases hd
    exact absurd (by simpa [Database.Assigned, h.conversations] using ha) hun

theorem openConversation_stored {ctx : SendContext Digest} {value : CreateConversationV2Input}
    {db db' : Database Digest} {id : Uuid} (h : openConversation ctx value db = .ok (id, db')) :
    StoredBy ctx none db db' id := by
  simp only [openConversation, bind_eq_ok, ensure_eq_ok, orThrow_eq_ok, freshId_eq_ok,
    pure_eq_ok] at h
  obtain ⟨_, db₁, h₁, _, _, ⟨-, rfl⟩, _, _, ⟨rfl, rfl⟩, _, _, ⟨rfl, rfl⟩, _, _, ⟨-, rfl⟩, _, db₂,
      h₂, _, db₃, h₃,
    _, db₄, h₄, _, db₅, h₅, _, db₆, h₆, rfl, rfl⟩ := h
  obtain ⟨table, ht, rfl⟩ := createConversation_eq_ok h₂
  obtain ⟨rfl, hc⟩ := createOutbound_eq_ok (fun _ => rfl) (fun _ => rfl) h₃
  have hlock := quiet_lockAllowedEmailIdentities _ _ h₁
  have hopen : Passive db₁ { db₁ with nextId := db₁.nextId + 1 + 1, conversations := table } :=
    .of_messages_eq (Nat.le_add_right _ 2) rfl
      (.insert ht le_rfl (Nat.lt_add_of_pos_right Nat.two_pos)) rfl rfl rfl rfl rfl
  have hafter : Passive db₃ db₆ := (quiet_claimAttachmentsForMessage _ _ _ h₄).trans
    ((quiet_appendConversationEvent _ _ h₅).trans (quiet_appendConversationEvent _ _ h₆))
  refine ⟨⟨_, hc.stored (fun _ => ⟨rfl, rfl, rfl, rfl, rfl, rfl, rfl⟩) (hlock.trans hopen) hafter⟩,
    fun _ => ?_⟩
  have hassigned :
    Database.Assigned { db₁ with nextId := db₁.nextId + 1 + 1, conversations := table }
      db₁.nextId :=
    ⟨_, (Table.get?_of_insert? ht _).trans (if_pos rfl), rfl⟩
  have hunassigned : ¬db₁.Assigned db₁.nextId := by
    rintro ⟨row, hrow, -⟩
    have hfree := Table.insert?_eq_some_iff.mp ⟨table, ht⟩
    rw [hrow] at hfree
    cases hfree
  obtain ⟨m, hm, hmc⟩ := hc.keeps_conversation hafter rfl hassigned
  refine .opened (fun ha => hunassigned (hlock.conversations.assigned _ ha)) ?_ hm hmc
  refine hafter.conversations.assigned _ ?_
  simpa [Database.Assigned, hc.conversations] using hassigned

theorem reopenConversation_stored {ctx : SendContext Digest} {value : CreateConversationV2Input}
    {conversation : EmailConversation} {db db' : Database Digest} {id : Uuid}
    (h : reopenConversation ctx value conversation db = .ok (some id, db')) :
    StoredBy ctx (some conversation) db db' id := by
  simp only [reopenConversation, findConversationOrThrow, bind_eq_ok, get_eq_ok, ensure_eq_ok,
    orThrow_eq_ok] at h
  obtain ⟨current, _, ⟨_, _, ⟨rfl, rfl⟩, hcurrent, rfl⟩, _, db₁, h₁, _, _, ⟨-, rfl⟩, _, _, ⟨-, rfl⟩,
    _, _, ⟨rfl, rfl⟩, h⟩ := h
  have hlock := quiet_lockAllowedEmailIdentities _ _ h₁
  simp only [lockAllowedEmailIdentities, bind_eq_ok, get_eq_ok, pure_eq_ok] at h₁
  obtain ⟨_, _, ⟨rfl, rfl⟩, -, rfl⟩ := h₁
  split at h
  · simp [pure_eq_ok] at h
  next hall =>
    simp only [bind_eq_ok, orThrow_eq_ok, pure_eq_ok, Option.some.injEq] at h
    obtain ⟨_, db₂, h₂, _, _, ⟨-, rfl⟩, _, db₃, h₃, _, db₄, h₄, _, db₅, h₅, rfl, rfl⟩ := h
    obtain ⟨rfl, hc⟩ := createOutbound_eq_ok (fun _ => rfl) (fun _ => rfl) h₃
    have hupdate : Passive db db₂ := by
      refine quiet_updateConversation ?_ h₂
      exact fun _ h => h
    have hafter : Passive db₃ db₅ := (quiet_claimAttachmentsForMessage _ _ _ h₄).trans
      (quiet_appendIntentEvents _ _ _ _ _ h₅)
    refine ⟨⟨_, hc.stored (fun _ => ⟨rfl, rfl, rfl, rfl, rfl, rfl, rfl⟩) hupdate hafter⟩,
      fun _ => ?_⟩
    refine .reopened rfl (by simp [hcurrent]) ?_ fun ha => ?_
    · intro m hm hmc
      by_contra hne
      refine hall (List.any_eq_true.mpr ⟨m, hm, ?_⟩)
      simp [hmc, hne]
    · exact hc.keeps_conversation hafter rfl (hupdate.conversations.assigned _ ha)

/-- A reopening that stores nothing changes nothing. -/
theorem reopenConversation_none {ctx : SendContext Digest} {value : CreateConversationV2Input}
    {conversation : EmailConversation} {db db' : Database Digest}
    (h : reopenConversation ctx value conversation db = .ok (none, db')) : db' = db := by
  simp only [reopenConversation, findConversationOrThrow, lockAllowedEmailIdentities, bind_eq_ok,
    get_eq_ok, ensure_eq_ok, orThrow_eq_ok, pure_eq_ok] at h
  obtain ⟨_, _, ⟨_, _, ⟨rfl, rfl⟩, -, rfl⟩, _, _, ⟨_, _, ⟨rfl, rfl⟩, -, rfl⟩, _, _, ⟨-, rfl⟩, _,
      _, ⟨-, rfl⟩,
    _, _, ⟨rfl, rfl⟩, h⟩ := h
  split at h
  · exact (pure_eq_ok.mp h).2.symm
  · simp only [bind_eq_ok, pure_eq_ok, reduceCtorEq, false_and, and_false, exists_false] at h

end ResendConversation
