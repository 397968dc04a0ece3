import ResendConversation.Lanes
import ResendConversation.SendSteps
import ResendConversation.Storing

/-! # Settling and deleting

The remaining transactions that the send lanes can see: the updates by which a synchronous
delivery settles its message (`Rewrite`), and the deletion of a conversation with its
messages and their outbox entries (`ConversationDeleted`). -/

namespace ResendConversation

open Foundation Tx

variable {Digest : Type}

/-! ### Settling -/

/-- A transaction that rewrites the views of the stored messages by `φ` and leaves the outbox
tables and the files alone. -/
structure Rewrite (φ : Uuid → SendView Digest → SendView Digest) (db db' : Database Digest) : Prop
    extends Frame φ db db' where
  batches : db'.outboxBatches = db.outboxBatches
  entries : db'.outboxEntries = db.outboxEntries
  attachmentEntries : db'.attachmentOutboxEntries = db.attachmentOutboxEntries
  files : FileFrame db db'

/-- The rewriting of one message. -/
def onMessage (messageId : Uuid) (f : SendView Digest → SendView Digest) (id : Uuid)
    (v : SendView Digest) : SendView Digest :=
  if id = messageId then f v else v

theorem updateMessages_rewrite {φ : Uuid → SendView Digest → SendView Digest}
    {p : EmailMessage Digest → Bool} {f : EmailMessage Digest → EmailMessage Digest}
    {keep : ∀ m, (f m).id = m.id} {db db' : Database Digest}
    (h : db' = { db with messages := db.messages.update p f keep })
    (hf : ∀ m, p m = true → (f m).sendView = φ m.id m.sendView)
    (hp : ∀ m, p m = false → φ m.id m.sendView = m.sendView)
    (hthread : ∀ m, (f m).conversationId = m.conversationId) : Rewrite φ db db' := by
  subst h
  exact { Frame.of_update hf hp hthread with
    batches := rfl
    entries := rfl
    attachmentEntries := rfl
    files := .of_eq le_rfl rfl rfl }

theorem updateMessage_rewrite {id : Uuid} {f : EmailMessage Digest → EmailMessage Digest}
    {keep : ∀ m, (f m).id = m.id} {g : SendView Digest → SendView Digest}
    {db db' : Database Digest} {r : EmailMessage Digest}
    (h : updateMessage id f keep db = .ok (r, db')) (hf : ∀ m, (f m).sendView = g m.sendView)
    (hthread : ∀ m, (f m).conversationId = m.conversationId) : Rewrite (onMessage id g) db db' := by
  obtain ⟨m, hm, -, -, hdb⟩ := updateMessage_eq_ok.mp h
  refine updateMessages_rewrite hdb (fun m hm => ?_) (fun m hm => ?_) hthread
  · rw [onMessage, if_pos (by simpa using hm), hf]
  · rw [onMessage, if_neg (by simpa using hm)]

/-- The view of a message that is recorded as sent. -/
def SendView.sent (resendEmailId : JsString) (v : SendView Digest) : SendView Digest :=
  { v with state := .accepted, resendEmailId := some resendEmailId }

/-- The view of a message whose delivery threw. -/
def SendView.thrown (error : SendError) (v : SendView Digest) : SendView Digest :=
  { v with state := if isKnownFailure error then .failed else .indeterminate }

/-- The view of a message after the guarded update of `recoverPendingMessage`. -/
def SendView.expired (v : SendView Digest) : SendView Digest :=
  if v.state = .pending then { v with state := .indeterminate } else v

theorem recordSent_rewrite {config : Config} {messageId : Uuid} {id : JsString}
    {db db' : Database Digest} {m : EmailMessage Digest}
    (h : recordSent config messageId id db = .ok (m, db')) :
    Rewrite (onMessage messageId (SendView.sent id)) db db' ∧ m.id = messageId := by
  simp only [recordSent, bind_eq_ok, get_eq_ok, orThrow_eq_ok] at h
  obtain ⟨_, db₁, h₁, _, db₂, h₂, _, _, ⟨rfl, rfl⟩, hm, rfl⟩ := h
  have hr : Rewrite (onMessage messageId (SendView.sent id)) db db₁ :=
    updateMessage_rewrite h₁ (fun _ => rfl) fun _ => rfl
  have hreports := quiet_projectOutboundDeliveryState _ _ h₂
  exact ⟨{ hr.toFrame.trans hreports.toFrame with
    batches := hreports.batches.trans hr.batches
    entries := hreports.entries.trans hr.entries
    attachmentEntries := hreports.attachmentEntries.trans hr.attachmentEntries
    files := hr.files.trans hr.nextId_le hreports.nextId_le hreports.files }, Table.key_of_get? hm⟩

theorem recordSendError_rewrite {messageId : Uuid} {error : SendError} {db db' : Database Digest}
    {m : EmailMessage Digest} (h : recordSendError messageId error db = .ok (m, db')) :
    Rewrite (onMessage messageId (SendView.thrown error)) db db' :=
  updateMessage_rewrite h (fun _ => rfl) fun _ => rfl

theorem expirePending_rewrite {messageId : Uuid} {db db' : Database Digest} {n : ℕ}
    (h : SendHandler.expirePending messageId db = .ok (n, db')) :
    Rewrite (onMessage messageId SendView.expired) db db' := by
  obtain ⟨-, hdb⟩ := updateMessages_eq_ok.mp h
  refine updateMessages_rewrite hdb (fun m hm => ?_) (fun m hm => ?_) fun m => rfl
  · simp only [Bool.and_eq_true, beq_iff_eq] at hm
    have hpending : m.sendView.state = .pending := hm.2
    rw [onMessage, if_pos hm.1, SendView.expired, if_pos hpending]
    rfl
  · simp only [Bool.and_eq_false_iff, beq_eq_false_iff_ne] at hm
    unfold onMessage SendView.expired
    split
    next hid => exact if_neg (hm.resolve_left (not_not_intro hid))
    next => rfl

/-! ### Deletion of a conversation -/

/-- What the deletion of a conversation does to the send lanes. -/
structure ConversationDeleted (c : Uuid) (db db' : Database Digest) : Prop where
  nextId_le : db.nextId ≤ db'.nextId
  gone : ∀ id m, db.messages.get? id = some m → m.conversationId = some c →
    db'.messages.get? id = none
  kept : ∀ id m, db.messages.get? id = some m → m.conversationId ≠ some c →
    ∃ m', db'.messages.get? id = some m' ∧ m'.sendView = m.sendView ∧
      m'.conversationId = m.conversationId
  origin : ∀ id, db.messages.get? id = none → db'.messages.get? id = none
  assigned : ∀ d, d ≠ c → db.Assigned d → db'.Assigned d
  created : ∀ d, (db'.conversations.get? d).isSome →
    (db.conversations.get? d).isSome ∨ (db.nextId ≤ d ∧ d < db'.nextId)
  deleted : db'.conversations.get? c = none
  batches : db'.outboxBatches = db.outboxBatches
  entries : ∀ e, e ∈ db'.outboxEntries ↔ e ∈ db.outboxEntries ∧
    ∀ m, db.messages.get? e.messageId = some m → m.conversationId ≠ some c
  attachmentEntries : ∀ e, e ∈ db'.attachmentOutboxEntries ↔ e ∈ db.attachmentOutboxEntries ∧
    ∀ m, db.messages.get? e.messageId = some m → m.conversationId ≠ some c
  files : FileFrame db db'

/-- The messages of a conversation, by identifier. -/
def Database.inConversation (db : Database Digest) (c : Uuid) : List Uuid :=
  (db.messages.select fun m => m.conversationId.any [c].contains).map EmailMessage.id

theorem Database.mem_inConversation {db : Database Digest} {c id : Uuid} :
    id ∈ db.inConversation c ↔ ∃ m, db.messages.get? id = some m ∧ m.conversationId = some c := by
  simp only [inConversation, List.mem_map, Table.mem_select, Table.get?_eq_some]
  constructor
  · rintro ⟨m, ⟨hm, hc⟩, rfl⟩
    exact ⟨m, ⟨hm, rfl⟩, by simpa [Option.any_eq_true] using hc⟩
  · rintro ⟨m, ⟨hm, rfl⟩, hc⟩
    exact ⟨m, ⟨hm, by simp [hc]⟩, rfl⟩

theorem deleteConversations_deleted (now : Time) (c : Uuid) (db : Database Digest) :
    ConversationDeleted c db (deleteConversations now [c] db) := by
  obtain ⟨n, tombstones, hn, heq, -⟩ := deleteAttachments_eq now
    (fun a => a.messageId.any (db.inConversation c).contains) db
  have hdb : deleteConversations now [c] db =
      { db with
        nextId := n
        conversations := db.conversations.delete fun d => [c].contains d.id
        routingAliases := db.routingAliases.delete fun a => [c].contains a.conversationId
        messages := (db.messages.delete fun m => m.conversationId.any [c].contains).update
          (fun m => m.parentMessageId.any (db.inConversation c).contains)
          fun m => { m with parentMessageId := none }
        outboxEntries := db.outboxEntries.delete fun e => (db.inConversation c).contains e.messageId
        attachmentOutboxEntries :=
          db.attachmentOutboxEntries.delete fun e => (db.inConversation c).contains e.messageId
        attachments := db.attachments.delete fun a => a.messageId.any (db.inConversation c).contains
        tombstones := tombstones } := by
    simp only [Database.inConversation] at heq ⊢
    simp only [deleteConversations, heq]
  have hin : ∀ m : EmailMessage Digest, m.conversationId.any [c].contains = true ↔
      m.conversationId = some c := by
    intro m
    cases m.conversationId <;> simp
  have hentry : ∀ id, (db.inConversation c).contains id = false ↔
      ∀ m, db.messages.get? id = some m → m.conversationId ≠ some c := by
    intro id
    rw [← Bool.not_eq_true, List.contains_iff_mem, Database.mem_inConversation]
    simp
  have hfiles := deleteConversations_files now [c] db
  rw [hdb] at hfiles ⊢
  refine
    { nextId_le := hn
      gone := ?_
      kept := ?_
      origin := fun id h => by simp [h]
      assigned := ?_
      created := fun d hd => .inl ?_
      deleted := ?_
      batches := rfl
      entries := fun e => by rw [Table.mem_delete, hentry]
      attachmentEntries := fun e => by rw [Table.mem_delete, hentry]
      files := hfiles }
  · intro id m hm hc
    simp [hm, hc]
  · intro id m hm hc
    have hout : m.conversationId.any [c].contains = false := by
      rw [← Bool.not_eq_true, hin]
      exact hc
    simp only [Table.get?_update, Table.get?_delete, hm, Option.filter_some, hout, Bool.not_false,
      if_true, Option.map_some]
    refine ⟨_, rfl, ?_⟩
    split <;> exact ⟨rfl, rfl⟩
  · rintro d hd ⟨row, hrow, ht⟩
    have hid := Table.key_of_get? hrow
    exact ⟨row, by simp [hrow, hid, hd], ht⟩
  · obtain ⟨row, hrow⟩ := Option.isSome_iff_exists.mp hd
    simp only [Table.get?_delete, Option.filter_eq_some_iff] at hrow
    simp [hrow.1]
  · rw [Table.get?_delete]
    cases hrow : db.conversations.get? c with
    | none => rfl
    | some row => simp [Table.key_of_get? hrow]

/-- Deleting after a transaction that leaves messages in their conversations. -/
theorem ConversationDeleted.after {c : Uuid} {a b d : Database Digest} (before : Passive a b)
    (hkeep : KeepsVacant a b) (h : ConversationDeleted c b d) : ConversationDeleted c a d := by
  have hnew : ∀ id, a.messages.get? id = none → b.messages.get? id = none := by
    intro id hid
    rw [Table.get?_eq_none] at hid ⊢
    intro m' hm' hm'id
    obtain ⟨m, hm, heq, -⟩ := hkeep.threads m' hm'
    exact hid m hm (heq.trans hm'id)
  have hmoved : ∀ id m, a.messages.get? id = some m → ∃ m', b.messages.get? id = some m' ∧
      m'.sendView = m.sendView ∧ m'.conversationId = m.conversationId := by
    intro id m hm
    obtain ⟨m', hm', hv⟩ := Database.view?_eq_some.mp (before.view id _ (Database.view?_of_get? hm))
    obtain ⟨m₀, hm₀, hid, hc⟩ := hkeep.threads m' (Table.mem_of_get? hm')
    have : m₀ = m := Table.key_inj hm₀ (Table.mem_of_get? hm)
      (hid.trans ((Table.key_of_get? hm').trans (Table.key_of_get? hm).symm))
    exact ⟨m', hm', hv, this ▸ hc⟩
  have hentry : ∀ id, (∀ m, b.messages.get? id = some m → m.conversationId ≠ some c) ↔
      ∀ m, a.messages.get? id = some m → m.conversationId ≠ some c := by
    intro id
    constructor
    · intro hb m hm
      obtain ⟨m', hm', -, hc⟩ := hmoved id m hm
      exact hc ▸ hb m' hm'
    · intro ha m' hm'
      cases hm : a.messages.get? id with
      | none => simp [hnew id hm] at hm'
      | some m =>
          obtain ⟨m₁, hm₁, -, hc⟩ := hmoved id m hm
          rw [hm'] at hm₁
          cases hm₁
          exact hc ▸ ha m hm
  exact
    { nextId_le := before.nextId_le.trans h.nextId_le
      gone := fun id m hm hc => by
        obtain ⟨m', hm', -, hc'⟩ := hmoved id m hm
        exact h.gone id m' hm' (hc'.trans hc)
      kept := fun id m hm hc => by
        obtain ⟨m', hm', hv, hc'⟩ := hmoved id m hm
        obtain ⟨m'', hm'', hv', hc''⟩ := h.kept id m' hm' (hc' ▸ hc)
        exact ⟨m'', hm'', hv'.trans hv, hc''.trans hc'⟩
      origin := fun id hid => h.origin id (hnew id hid)
      assigned := fun e he ha => h.assigned e he (before.conversations.assigned e ha)
      created := by
        intro e he
        rcases h.created e he with hb | ⟨hle, hlt⟩
        · rcases before.conversations.created e hb with ha | ⟨hle, hlt⟩
          · exact .inl ha
          · exact .inr ⟨hle, hlt.trans_le h.nextId_le⟩
        · exact .inr ⟨before.nextId_le.trans hle, hlt⟩
      deleted := h.deleted
      batches := h.batches.trans before.batches
      entries := fun e => by rw [h.entries, before.entries, hentry]
      attachmentEntries := fun e => by rw [h.attachmentEntries, before.attachmentEntries, hentry]
      files := before.files.trans before.nextId_le h.nextId_le h.files }

/-- The `DELETE` request changes nothing or deletes its conversation. -/
theorem deleteConversation_eq_ok {config : Config} {now : Time} {c : Uuid}
    {db db' : Database Digest} {found : Bool}
    (h : deleteConversation config now c db = .ok (found, db')) :
    db' = db ∨ ConversationDeleted c db db' := by
  obtain ⟨_, _, hget, h⟩ := bind_eq_ok.mp h
  obtain ⟨rfl, rfl⟩ := get_eq_ok.mp hget
  cases hc : db.conversations.get? c with
  | none =>
      rw [hc] at h
      exact .inl (pure_eq_ok.mp h).2.symm
  | some row =>
      rw [hc] at h
      simp only [bind_eq_ok, modify_eq_ok, pure_eq_ok] at h
      obtain ⟨event, db₁, h₁, _, _, rfl, _, _, rfl, rfl, rfl⟩ := h
      have hevents : Passive db₁ (deleteConversationEvents c event db₁) :=
        .of_messages_eq le_rfl rfl (.of_eq rfl) rfl rfl rfl rfl rfl
      have hkeep : KeepsVacant db₁ (deleteConversationEvents c event db₁) := .of_eq rfl rfl
      exact .inr ((deleteConversations_deleted now c _).after
        ((quiet_appendConversationEvent _ _ h₁).trans hevents)
        (IsTrans.trans _ _ _ (keepsVacant_appendConversationEvent _ _ h₁) hkeep))

end ResendConversation
