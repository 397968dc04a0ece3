import ResendConversation.StepStatements

/-! # Rows around a statement

Where the messages and the attachments after a statement come from (`message_origin`,
`attachment_origin`).  A row is kept, rewritten in the columns that `Rewritten` lists,
inserted under a grant, or deleted. -/

namespace ResendConversation

open Foundation

variable {Digest : Type} {G : Grant Digest} {db db' : Database Digest}

/-! ### Deletions -/

/-- The messages of deleted conversations. -/
def goneMessages (ids : List Uuid) (db : Database Digest) : List Uuid :=
  (db.messages.select fun m => m.conversationId.any ids.contains).map EmailMessage.id

theorem mem_goneMessages {ids : List Uuid} {id : Uuid} :
    id ∈ goneMessages ids db ↔ ∃ m ∈ db.messages, m.id = id ∧
      ∃ c ∈ ids, m.conversationId = some c := by
  simp only [goneMessages, List.mem_map, Table.mem_select, Option.any_eq_true,
    List.contains_iff_mem]
  constructor
  · rintro ⟨m, ⟨hm, c, hc, hids⟩, rfl⟩
    exact ⟨m, hm, rfl, c, hids, hc⟩
  · rintro ⟨m, hm, rfl, c, hids, hc⟩
    exact ⟨m, ⟨hm, c, hc, hids⟩, rfl⟩

/-- What a deletion of conversations does to the other tables. -/
structure Deleted (now : Time) (ids : List Uuid) (db : Database Digest) (n : Uuid)
    (tombstones : Table StoredObjectTombstone.id) : Prop where
  nextId_le : db.nextId ≤ n
  eq : deleteConversations now ids db = { db with
    nextId := n
    tombstones := tombstones
    attachments := db.attachments.delete fun a => a.messageId.any (goneMessages ids db).contains
    conversations := db.conversations.delete fun c => ids.contains c.id
    routingAliases := db.routingAliases.delete fun a => ids.contains a.conversationId
    messages := (db.messages.delete fun m => m.conversationId.any ids.contains).update
      (fun m => m.parentMessageId.any (goneMessages ids db).contains) fun m =>
        { m with parentMessageId := none }
    outboxEntries := db.outboxEntries.delete fun e => (goneMessages ids db).contains e.messageId
    attachmentOutboxEntries :=
      db.attachmentOutboxEntries.delete fun e => (goneMessages ids db).contains e.messageId }

theorem deleteConversations_exact (now : Time) (ids : List Uuid) (db : Database Digest) :
    ∃ n tombstones, Deleted now ids db n tombstones := by
  obtain ⟨n, tombstones, hn, heq, -⟩ := deleteAttachments_eq now
    (fun a => a.messageId.any (goneMessages ids db).contains) db
  refine ⟨n, tombstones, hn, ?_⟩
  simp only [deleteConversations]
  rw [show (db.messages.select fun m => m.conversationId.any ids.contains).map EmailMessage.id =
    goneMessages ids db from rfl, heq]

/-! ### Messages -/

/-- What a statement makes of a stored message. -/
inductive EmailMessage.Rewritten (G : Grant Digest) (m : EmailMessage Digest) :
    EmailMessage Digest → Prop
  | same : Rewritten G m m
  | settle (outcome : Outcome) : Rewritten G m (m.settle outcome)
  | identify (internetMessageId : JsString) (emailCreatedAt : Time)
      (granted : G.identify internetMessageId) :
      Rewritten G m
        { m with internetMessageId := some internetMessageId, emailCreatedAt := emailCreatedAt }
  | name (internetMessageId : JsString) (granted : G.identify internetMessageId) :
      Rewritten G m { m with internetMessageId := some internetMessageId }
  | move (target : Uuid) (source : m.conversationId.isSome) :
      Rewritten G m { m with conversationId := some target }
  | parent (parentMessageId : Option Uuid) :
      Rewritten G m { m with parentMessageId := parentMessageId }

theorem EmailMessage.Rewritten.id_eq {m m' : EmailMessage Digest} (h : m.Rewritten G m') :
    m'.id = m.id := by
  cases h <;> rfl

/-- A message that a statement inserted. -/
structure MessageInserted (G : Grant Digest) (db : Database Digest) (m : EmailMessage Digest) :
    Prop where
  granted : G.message db m
  id : m.id = db.nextId
  shape : m.kindShape
  placed : ∀ c, m.conversationId = some c → (db.conversations.get? c).isSome
  new : db.messages.get? m.id = none

/-- What a statement does to the table of the messages. -/
inductive MessagesChange (G : Grant Digest) (db db' : Database Digest) : Prop
  | same (eq : db'.messages = db.messages)
  | insert (m : EmailMessage Digest) (drawn : db.nextId < db'.nextId)
      (inserted : MessageInserted G db m) (insert : db.messages.insert? m = some db'.messages)
  | rewrite (p : EmailMessage Digest → Bool) (f : EmailMessage Digest → EmailMessage Digest)
      (keep : ∀ m, (f m).id = m.id) (rewritten : ∀ m, p m = true → m.Rewritten G (f m))
      (eq : db'.messages = db.messages.update p f keep)
  | delete (ids : List Uuid) (granted : ∀ c ∈ ids, G.delete db c)
      (eq : db'.messages = (db.messages.delete fun m => m.conversationId.any ids.contains).update
        (fun m => m.parentMessageId.any (goneMessages ids db).contains)
        fun m => { m with parentMessageId := none })

theorem Statement.messages_change (h : Statement G db db') : MessagesChange G db db' := by
  cases h with
  | message m table granted id shape placed insert =>
      exact .insert m (Nat.lt_succ_self _)
        ⟨granted, id, shape, placed, Table.insert?_eq_some_iff.mp ⟨_, insert⟩⟩ insert
  | settle p outcome =>
      exact .rewrite p (fun m => m.settle (outcome m)) (fun _ => rfl)
        (fun m _ => .settle (outcome m)) rfl
  | identify id internetMessageId emailCreatedAt granted =>
      exact .rewrite (fun m => m.id == id)
        (fun m => { m with internetMessageId := some internetMessageId, emailCreatedAt :=
          emailCreatedAt })
        (fun _ => rfl) (fun m _ => .identify internetMessageId emailCreatedAt granted) rfl
  | name id internetMessageId granted =>
      exact .rewrite (fun m => m.id == id)
        (fun m => { m with internetMessageId := some internetMessageId })
        (fun _ => rfl) (fun m _ => .name internetMessageId granted) rfl
  | move target sources granted =>
      refine .rewrite (fun m => m.conversationId.any sources.contains)
        (fun m => { m with conversationId := some target }) (fun _ => rfl)
          (fun m hp => .move target ?_) rfl
      cases hc : m.conversationId with
      | none => simp [hc] at hp
      | some c => rfl
  | adopt parent p =>
      exact .rewrite p (fun m => { m with parentMessageId := some parent }) (fun _ => rfl)
        (fun m _ => .parent (some parent)) rfl
  | delete now ids granted =>
      obtain ⟨n, tombstones, hdeleted⟩ := deleteConversations_exact now ids db
      exact .delete ids granted (by rw [hdeleted.eq])
  | expire now p granted selects =>
      obtain ⟨n, tombstones, -, heq, -⟩ := deleteAttachments_eq now p db
      exact .same (by rw [heq])
  | tombstone now key =>
      obtain ⟨n, tombstones, -, heq, -⟩ := tombstoneFor_tombstoned now key db
      exact .same (by rw [heq])
  | _ => exact .same rfl

/-- Where a message comes from. -/
theorem Statement.message_origin (h : Statement G db db') {m' : EmailMessage Digest}
    (hm' : m' ∈ db'.messages) :
    (∃ m ∈ db.messages, m.Rewritten G m') ∨ MessageInserted G db m' := by
  cases h.messages_change with
  | same eq =>
      rw [eq] at hm'
      exact .inl ⟨m', hm', .same⟩
  | insert m drawn inserted insert =>
      rcases (Table.mem_insert? insert).mp hm' with hm' | rfl
      · exact .inl ⟨m', hm', .same⟩
      · exact .inr inserted
  | rewrite p f keep rewritten eq =>
      rw [eq, Table.mem_update] at hm'
      obtain ⟨m, hm, rfl⟩ := hm'
      refine .inl ⟨m, hm, ?_⟩
      split
      next hp => exact rewritten m hp
      next => exact .same
  | delete ids granted eq =>
      rw [eq, Table.mem_update] at hm'
      obtain ⟨m, hm, rfl⟩ := hm'
      refine .inl ⟨m, (Table.mem_delete.mp hm).1, ?_⟩
      split
      · exact .parent none
      · exact .same

/-- Where only received messages are inserted, the sent ones were there before. -/
theorem Performs.outbound (h : Performs G db db')
    (hG : ∀ db m, G.message db m → m.direction = .inbound) {m : EmailMessage Digest}
    (hm : m ∈ db'.messages) (hout : m.direction = .outbound) : (db.messages.get? m.id).isSome := by
  have hkept : ∀ m ∈ db'.messages, m.direction = .outbound → (db.messages.get? m.id).isSome := by
    refine h.invariant (I := fun db₁ => ∀ m ∈ db₁.messages, m.direction = .outbound →
      (db.messages.get? m.id).isSome) (fun m hm _ => by simp [Table.mem_iff_get?.mp hm]) ?_
    intro db₁ db₂ hold hs m₂ hm₂ hout₂
    rcases hs.message_origin hm₂ with ⟨m₁, hm₁, hrewritten⟩ | hinserted
    · have hdirection : m₂.direction = m₁.direction := by cases hrewritten <;> rfl
      rw [hrewritten.id_eq]
      exact hold m₁ hm₁ (hdirection.symm.trans hout₂)
    · rw [hG _ _ hinserted.granted] at hout₂
      cases hout₂
  exact hkept m hm hout

/-- Every other step inserts received messages only. -/
theorem inserted_step [DecidableEq Digest] {rt : Runtime Digest} {s s' : System Digest}
    {a : Action Digest} (hs : step rt s a = some s')
    (hidle : ∀ pid c, a = .run pid c → ∀ p, s.Runs pid p → p.transacting = none)
    {m : EmailMessage Digest} (hm : m ∈ s'.db.messages) (hout : m.direction = .outbound) :
    (s.db.messages.get? m.id).isSome := by
  refine (step_performs hs).outbound (fun db m hgrant => ?_) hm hout
  obtain ⟨pid, c, rfl, ⟨h, parent, hruns, htransacts, -⟩ | ⟨h, email, -, -, hrow⟩⟩ :=
    System.message_granted hgrant
  · have hnone := hidle pid c rfl _ hruns
    rw [htransacts.transacting] at hnone
    cases hnone
  · obtain ⟨conversationId, parent, heq⟩ := hrow
    rw [heq]
    rfl

/-! ### Attachments -/

/-- What a statement makes of a stored attachment. -/
inductive EmailAttachment.Rewritten (G : Grant Digest) (db : Database Digest)
    (a : EmailAttachment) :
    EmailAttachment → Prop
  | same : Rewritten G db a a
  | bind (messageId : Uuid) (granted : G.bind messageId) (drawn : messageId < db.nextId)
      (unbound : a.messageId = none) (source : a.source = .upload) (stored : a.state = .stored) :
      Rewritten G db a { a with messageId := some messageId }
  | inline (messageId : Uuid) (contentId : Option JsString) (granted : G.bind messageId)
      (bound : a.messageId = some messageId) :
      Rewritten G db a { a with contentId := contentId, contentDisposition := .inline }
  | advance (a' : EmailAttachment) (granted : G.ingest) (working : a.source = .inbound ∨
      a.leaseToken.isSome)
      (frame : a.AdvancesTo a') : Rewritten G db a a'

theorem EmailAttachment.Rewritten.id_eq {a a' : EmailAttachment} (h : a.Rewritten G db a') :
    a'.id = a.id := by
  cases h with
  | advance _ _ _ frame => rw [frame]
  | _ => rfl

/-- An attachment that a statement inserted: of a received message, or an upload. -/
inductive AttachmentInserted (G : Grant Digest) (db : Database Digest) (a : EmailAttachment) : Prop
  | attach (key : a.storageKey.id = db.nextId + 1) (source : a.source = .inbound)
      (state : a.state = .pending)
      (unleased : a.leaseUntil = none) (attempts : a.attemptCount = 0)
      (bound : ∀ m, a.messageId = some m → (db.messages.get? m).isSome)
  | upload (granted : G.upload a) (source : a.source = .upload) (state : a.state = .stored)
      (unbound : a.messageId = none) (free : ∀ b ∈ db.attachments, b.storageKey ≠ a.storageKey)

/-- An attachment that a statement deletes: an upload that no message refers to, or one of a
deleted conversation. -/
inductive AttachmentDropped (G : Grant Digest) (db : Database Digest) (a : EmailAttachment) : Prop
  | expire (granted : G.expire) (source : a.source = .upload) (unbound : a.messageId = none)
  | delete (m : EmailMessage Digest) (c : Uuid) (stored : m ∈ db.messages)
      (bound : a.messageId = some m.id)
      (placed : m.conversationId = some c) (granted : G.delete db c)

/-- What a statement does to the table of the attachments. -/
inductive AttachmentsChange (G : Grant Digest) (db db' : Database Digest) : Prop
  | same (eq : db'.attachments = db.attachments)
  | insert (a : EmailAttachment) (drawn : db.nextId < db'.nextId) (id : a.id = db.nextId)
      (lease : a.leaseToken = none)
      (inserted : AttachmentInserted G db a)
        (insert : db.attachments.insert? a = some db'.attachments)
  | rewrite (p : EmailAttachment → Bool) (f : EmailAttachment → EmailAttachment)
      (keep : ∀ a, (f a).id = a.id) (rewritten : ∀ a ∈ db.attachments, p a = true →
        a.Rewritten G db (f a))
      (eq : db'.attachments = db.attachments.update p f keep)
  | delete (p : EmailAttachment → Bool) (dropped : ∀ a ∈ db.attachments, p a = true →
      AttachmentDropped G db a)
      (eq : db'.attachments = db.attachments.delete p)

theorem Statement.attachments_change (h : Statement G db db') : AttachmentsChange G db db' := by
  cases h with
  | attach a table id key source state lease unleased attempts bound insert =>
      exact .insert a (Nat.lt_add_of_pos_right Nat.two_pos) id lease
        (.attach key source state unleased attempts bound) insert
  | upload a table granted id source state unbound lease free insert =>
      exact .insert a (Nat.lt_succ_self _) id lease
        (.upload granted source state unbound free) insert
  | bind messageId ids granted drawn =>
      refine .rewrite
        (fun a => ids.contains a.id && a.messageId.isNone && a.source == .upload &&
          a.state == .stored)
        (fun a => { a with messageId := some messageId }) (fun _ => rfl) (fun a _ hp => ?_) rfl
      simp only [Bool.and_eq_true, Option.isNone_iff_eq_none, beq_iff_eq] at hp
      exact .bind messageId granted drawn hp.1.1.2 hp.1.2 hp.2
  | inline messageId id contentId granted =>
      refine .rewrite (fun a => a.id == id && a.messageId == some messageId)
        (fun a => { a with contentId := contentId, contentDisposition := .inline }) (fun _ => rfl)
        (fun a _ hp => ?_) rfl
      simp only [Bool.and_eq_true, beq_iff_eq] at hp
      exact .inline messageId contentId granted hp.2
  | advance p f keep granted selects frame =>
      exact .rewrite p f keep (fun a ha hp => .advance _ granted (selects a ha hp) (frame a)) rfl
  | delete now ids granted =>
      obtain ⟨n, tombstones, hdeleted⟩ := deleteConversations_exact now ids db
      refine .delete (fun a => a.messageId.any (goneMessages ids db).contains) (fun a _ hp => ?_)
        (by rw [hdeleted.eq])
      obtain ⟨id, hid, hgone⟩ := (Option.any_eq_true _ _).mp hp
      obtain ⟨m, hm, rfl, c, hc, hmc⟩ := mem_goneMessages.mp (List.contains_iff_mem.mp hgone)
      exact .delete m c hm hid hmc (granted c hc)
  | expire now p granted selects =>
      obtain ⟨n, tombstones, -, heq, -⟩ := deleteAttachments_eq now p db
      exact .delete p (fun a _ hp => .expire granted (selects a hp).1 (selects a hp).2)
        (by rw [heq])
  | tombstone now key =>
      obtain ⟨n, tombstones, -, heq, -⟩ := tombstoneFor_tombstoned now key db
      exact .same (by rw [heq])
  | _ => exact .same rfl

/-- Where an attachment comes from. -/
theorem Statement.attachment_origin (h : Statement G db db') {a' : EmailAttachment}
    (ha' : a' ∈ db'.attachments) :
    (∃ a ∈ db.attachments, a.Rewritten G db a') ∨
      (a'.id = db.nextId ∧ a'.leaseToken = none ∧ AttachmentInserted G db a') := by
  cases h.attachments_change with
  | same eq =>
      rw [eq] at ha'
      exact .inl ⟨a', ha', .same⟩
  | insert a drawn id lease inserted insert =>
      rcases (Table.mem_insert? insert).mp ha' with ha' | rfl
      · exact .inl ⟨a', ha', .same⟩
      · exact .inr ⟨id, lease, inserted⟩
  | rewrite p f keep rewritten eq =>
      rw [eq, Table.mem_update] at ha'
      obtain ⟨a, ha, rfl⟩ := ha'
      refine .inl ⟨a, ha, ?_⟩
      split
      next hp => exact rewritten a ha hp
      next => exact .same
  | delete p dropped eq =>
      rw [eq, Table.mem_delete] at ha'
      exact .inl ⟨a', ha'.1, .same⟩

/-! ### The allowlist -/

/-- Only the operator changes the allowlist. -/
theorem Statement.allowlist_eq (h : Statement G db db') (hG : ¬G.allowlist) :
    db'.allowlist = db.allowlist := by
  cases h with
  | allowlist entries granted => exact absurd granted hG
  | delete now ids granted =>
      obtain ⟨n, tombstones, hdeleted⟩ := deleteConversations_exact now ids db
      rw [hdeleted.eq]
  | expire now p granted selects =>
      obtain ⟨n, tombstones, -, heq, -⟩ := deleteAttachments_eq now p db
      rw [heq]
  | tombstone now key =>
      obtain ⟨n, tombstones, -, heq, -⟩ := tombstoneFor_tombstoned now key db
      rw [heq]
  | _ => rfl

theorem Performs.allowlist_eq (h : Performs G db db') (hG : ¬G.allowlist) :
    db'.allowlist = db.allowlist :=
  h.invariant (I := fun db₁ => db₁.allowlist = db.allowlist) rfl fun _ _ hold hs =>
    (hs.allowlist_eq hG).trans hold

end ResendConversation
