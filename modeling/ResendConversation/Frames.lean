import ResendConversation.SendRequests

/-! # Frames

What the send lanes depend on, and what the rest of the service leaves alone.  The send lanes
read of a message only its `SendView`; threading, delivery reports and event logging never
change it.  `Frame φ` relates the databases around a transaction that rewrites the views of
the stored messages by `φ` and otherwise only adds inbound messages; `Background` is the frame
of a transaction that rewrites none and leaves the outbox tables alone.

The second half of the frame is about conversations: a conversation that has a topic keeps
one, and messages only ever leave conversations without a topic.

`FileFrame` is the frame of the attachment files: a transaction outside the ingest runtime,
the reaper and the uploads changes no file of a stored attachment, its new attachments get
new storage keys, and its new tombstones name keys without an attachment. -/

namespace ResendConversation

open Foundation

variable {Digest : Type}

/-- The part of a message that the send lanes read and write. -/
structure SendView (Digest : Type) where
  kind : EmailMessageKind
  direction : EmailDirection
  state : EmailMessageState
  resendEmailId : Option JsString
  idempotencyKey : Option JsString
  requestHash : Option Digest
  createdAt : Time
  threaded : Bool
  /-- The payload of a call without attachments. -/
  payload : SendEmailInput

def EmailMessage.sendView (m : EmailMessage Digest) : SendView Digest where
  kind := m.kind
  direction := m.direction
  state := m.state
  resendEmailId := m.resendEmailId
  idempotencyKey := m.idempotencyKey
  requestHash := m.requestHash
  createdAt := m.createdAt
  threaded := m.conversationId.isSome
  payload := buildSendEmailInput m []

@[simp] theorem EmailMessage.sendView_direction (m : EmailMessage Digest) :
    m.sendView.direction = m.direction := rfl

@[simp] theorem EmailMessage.sendView_state (m : EmailMessage Digest) :
    m.sendView.state = m.state := rfl

@[simp] theorem EmailMessage.sendView_resendEmailId (m : EmailMessage Digest) :
    m.sendView.resendEmailId = m.resendEmailId := rfl

@[simp] theorem EmailMessage.sendView_idempotencyKey (m : EmailMessage Digest) :
    m.sendView.idempotencyKey = m.idempotencyKey := rfl

@[simp] theorem EmailMessage.sendView_requestHash (m : EmailMessage Digest) :
    m.sendView.requestHash = m.requestHash := rfl

@[simp] theorem EmailMessage.sendView_createdAt (m : EmailMessage Digest) :
    m.sendView.createdAt = m.createdAt := rfl

/-- A received message. -/
structure SendView.Inbound (v : SendView Digest) : Prop where
  direction : v.direction = .inbound
  state : v.state = .received
  idempotencyKey : v.idempotencyKey = none
  requestHash : v.requestHash = none

namespace Database

/-- The view of a stored message. -/
def view? (db : Database Digest) (id : Uuid) : Option (SendView Digest) :=
  (db.messages.get? id).map EmailMessage.sendView

theorem view?_eq_some {db : Database Digest} {id : Uuid} {v : SendView Digest} :
    db.view? id = some v ↔ ∃ m, db.messages.get? id = some m ∧ m.sendView = v := by
  simp [view?]

theorem view?_eq_none {db : Database Digest} {id : Uuid} :
    db.view? id = none ↔ db.messages.get? id = none := by
  simp [view?]

theorem view?_of_get? {db : Database Digest} {id : Uuid} {m : EmailMessage Digest}
    (h : db.messages.get? id = some m) : db.view? id = some m.sendView := by
  simp [view?, h]

/-- A conversation that is assigned to a topic. -/
def Assigned (db : Database Digest) (c : Uuid) : Prop :=
  ∃ row, db.conversations.get? c = some row ∧ row.topicType.isSome

end Database

/-! ### The frames -/

/-- The frame of the conversations: topics stay, and new conversations have new identifiers. -/
structure ConversationFrame (db db' : Database Digest) : Prop where
  assigned : ∀ c, db.Assigned c → db'.Assigned c
  created : ∀ c, (db'.conversations.get? c).isSome →
    (db.conversations.get? c).isSome ∨ (db.nextId ≤ c ∧ c < db'.nextId)

theorem ConversationFrame.of_eq {db db' : Database Digest}
    (h : db'.conversations = db.conversations) : ConversationFrame db db' where
  assigned := fun c hc => by simpa [Database.Assigned, h] using hc
  created := fun c hc => .inl (by rwa [h] at hc)

theorem ConversationFrame.trans {a b c : Database Digest} (hid : a.nextId ≤ b.nextId)
    (hid' : b.nextId ≤ c.nextId) (hab : ConversationFrame a b) (hbc : ConversationFrame b c) :
    ConversationFrame a c where
  assigned := fun d h => hbc.assigned d (hab.assigned d h)
  created := by
    intro d hd
    rcases hbc.created d hd with h | ⟨hle, hlt⟩
    · rcases hab.created d h with h' | ⟨hle, hlt⟩
      · exact .inl h'
      · exact .inr ⟨hle, hlt.trans_le hid'⟩
    · exact .inr ⟨hid.trans hle, hlt⟩

/-- A transaction that rewrites the views of the stored messages by `φ`. -/
structure Frame (φ : Uuid → SendView Digest → SendView Digest) (db db' : Database Digest) :
    Prop where
  nextId_le : db.nextId ≤ db'.nextId
  view : ∀ id v, db.view? id = some v → db'.view? id = some (φ id v)
  fresh : ∀ id v, db'.view? id = some v → db.view? id = none →
    db.nextId ≤ id ∧ id < db'.nextId ∧ v.Inbound
  conversations : ConversationFrame db db'
  threads : ∀ id m m', db.messages.get? id = some m → db'.messages.get? id = some m' →
    m'.conversationId = m.conversationId ∨ ∃ c, m.conversationId = some c ∧ ¬db.Assigned c

/-- A transaction that leaves the send lanes alone. -/
structure Background (db db' : Database Digest) : Prop extends Frame (fun _ v => v) db db' where
  batches : db'.outboxBatches = db.outboxBatches
  entries : db'.outboxEntries = db.outboxEntries
  attachmentEntries : db'.attachmentOutboxEntries = db.attachmentOutboxEntries

theorem Frame.trans {φ : Uuid → SendView Digest → SendView Digest} {a b c : Database Digest}
    (hab : Frame φ a b) (hbc : Frame (fun _ v => v) b c) : Frame φ a c where
  nextId_le := hab.nextId_le.trans hbc.nextId_le
  view := fun id v hv => hbc.view id _ (hab.view id v hv)
  fresh := by
    intro id v hv hnone
    cases hb : b.view? id with
    | none =>
        obtain ⟨hle, hlt, hin⟩ := hbc.fresh id v hv hb
        exact ⟨hab.nextId_le.trans hle, hlt, hin⟩
    | some w =>
        obtain ⟨hle, hlt, hin⟩ := hab.fresh id w hb hnone
        have hvw : v = w := Option.some.inj (hv.symm.trans (hbc.view id w hb))
        exact ⟨hle, hlt.trans_le hbc.nextId_le, hvw ▸ hin⟩
  conversations := hab.conversations.trans hab.nextId_le hbc.nextId_le hbc.conversations
  threads := by
    intro id m m'' hm hm''
    have hb := hab.view id _ (Database.view?_of_get? hm)
    obtain ⟨m', hm', -⟩ := Database.view?_eq_some.mp hb
    rcases hab.threads id m m' hm hm' with h | h
    · rcases hbc.threads id m' m'' hm' hm'' with h' | ⟨d, hd, hu⟩
      · exact .inl (h'.trans h)
      · exact .inr ⟨d, h ▸ hd, fun ha => hu (hab.conversations.assigned d ha)⟩
    · exact .inr h

instance : Std.Refl (@Background Digest) where
  refl db :=
    { nextId_le := le_rfl
      view := fun _ _ h => h
      fresh := fun _ _ h h' => by simp [h] at h'
      conversations := .of_eq rfl
      threads := fun _ _ _ h h' => .inl (by rw [h] at h'; cases h'; rfl)
      batches := rfl
      entries := rfl
      attachmentEntries := rfl }

instance : IsTrans (Database Digest) Background where
  trans _ _ _ hab hbc :=
    { hab.toFrame.trans hbc.toFrame with
      batches := hbc.batches.trans hab.batches
      entries := hbc.entries.trans hab.entries
      attachmentEntries := hbc.attachmentEntries.trans hab.attachmentEntries }

theorem Background.trans {a b c : Database Digest} (hab : Background a b) (hbc : Background b c) :
    Background a c :=
  IsTrans.trans _ _ _ hab hbc

/-- A transaction that touches neither the messages nor the outbox tables. -/
theorem Background.of_messages_eq {db db' : Database Digest} (hid : db.nextId ≤ db'.nextId)
    (hm : db'.messages = db.messages) (hc : ConversationFrame db db')
    (hb : db'.outboxBatches = db.outboxBatches) (he : db'.outboxEntries = db.outboxEntries)
    (ha : db'.attachmentOutboxEntries = db.attachmentOutboxEntries) : Background db db' where
  nextId_le := hid
  view := fun id v h => by simpa [Database.view?, hm] using h
  fresh := fun id v h h' => by simp [Database.view?, hm] at h h'; simp [h'] at h
  conversations := hc
  threads := fun _ _ _ h h' => .inl (by rw [hm, h] at h'; cases h'; rfl)
  batches := hb
  entries := he
  attachmentEntries := ha

/-- An update of messages that keeps their views and their conversations. -/
theorem Background.of_update {db : Database Digest} {p : EmailMessage Digest → Bool}
    {f : EmailMessage Digest → EmailMessage Digest} {keep : ∀ m, (f m).id = m.id}
    (hview : ∀ m, p m → (f m).sendView = m.sendView)
    (hthread : ∀ m, p m → (f m).conversationId = m.conversationId ∨
      ∃ c, m.conversationId = some c ∧ ¬db.Assigned c) :
    Background db { db with messages := db.messages.update p f keep } where
  nextId_le := le_rfl
  view := by
    intro id v h
    obtain ⟨m, hm, rfl⟩ := Database.view?_eq_some.mp h
    refine Database.view?_eq_some.mpr ⟨if p m then f m else m, by simp [hm], ?_⟩
    split
    next hp => exact hview m hp
    next => rfl
  fresh := by
    intro id v h h'
    simp only [Database.view?_eq_none] at h'
    simp [Database.view?, h'] at h
  conversations := .of_eq rfl
  threads := by
    intro id m m' hm hm'
    simp only [Table.get?_update, hm, Option.map_some, Option.some.injEq] at hm'
    subst hm'
    split
    next hp => exact hthread m hp
    next => exact .inl rfl
  batches := rfl
  entries := rfl
  attachmentEntries := rfl

/-! ### Files -/

/-- The storage keys of the attachments were drawn, each for one attachment. -/
structure Database.StorageKeys (db : Database Digest) : Prop where
  drawn : ∀ a ∈ db.attachments, a.id < db.nextId ∧ a.storageKey.id < db.nextId
  injective : ∀ a ∈ db.attachments, ∀ b ∈ db.attachments, a.storageKey = b.storageKey → a = b

/-- Two versions of a row that agree on its file. -/
structure EmailAttachment.SameFile (a a' : EmailAttachment) : Prop where
  id : a'.id = a.id
  storageKey : a'.storageKey = a.storageKey
  state : a'.state = a.state
  leaseToken : a'.leaseToken = a.leaseToken

theorem EmailAttachment.SameFile.refl (a : EmailAttachment) : a.SameFile a := ⟨rfl, rfl, rfl, rfl⟩

theorem EmailAttachment.SameFile.trans {a b c : EmailAttachment} (hab : a.SameFile b)
    (hbc : b.SameFile c) : a.SameFile c :=
  ⟨hbc.id.trans hab.id, hbc.storageKey.trans hab.storageKey, hbc.state.trans hab.state,
    hbc.leaseToken.trans hab.leaseToken⟩

/-- A pending attachment that did not exist in `db`. -/
structure EmailAttachment.NewIn (db : Database Digest) (a : EmailAttachment) : Prop where
  state : a.state = .pending
  leaseToken : a.leaseToken = none
  id : db.nextId ≤ a.id
  storageKey : db.nextId ≤ a.storageKey.id

/-- A storage key that is condemned in `db'`: it had an attachment, or was drawn since, and
has no attachment any more. -/
structure StorageKey.Released (db db' : Database Digest) (key : StorageKey) : Prop where
  origin : (∃ a ∈ db.attachments, a.storageKey = key) ∨ (db.nextId ≤ key.id ∧ key.id < db'.nextId)
  gone : ∀ a' ∈ db'.attachments, a'.storageKey ≠ key

structure FileStep (db db' : Database Digest) : Prop where
  keys : db'.StorageKeys
  attachments : ∀ a' ∈ db'.attachments, (∃ a ∈ db.attachments, a.SameFile a') ∨ a'.NewIn db
  tombstones : ∀ t' ∈ db'.tombstones,
    (∃ t ∈ db.tombstones, t.storageKey = t'.storageKey) ∨ t'.storageKey.Released db db'

/-- The frame of the attachment files. -/
def FileFrame (db db' : Database Digest) : Prop := db.StorageKeys → FileStep db db'

theorem FileFrame.of_eq {db db' : Database Digest} (hid : db.nextId ≤ db'.nextId)
    (ha : db'.attachments = db.attachments) (ht : db'.tombstones = db.tombstones) :
    FileFrame db db' := by
  intro hk
  refine ⟨⟨?_, ?_⟩, ?_, ?_⟩
  · rw [ha]
    exact fun a h => ⟨(hk.drawn a h).1.trans_le hid, (hk.drawn a h).2.trans_le hid⟩
  · rw [ha]
    exact hk.injective
  · rw [ha]
    exact fun a h => .inl ⟨a, h, .refl a⟩
  · rw [ht]
    exact fun t h => .inl ⟨t, h, rfl⟩

theorem FileFrame.trans {a b c : Database Digest} (hid : a.nextId ≤ b.nextId)
    (hid' : b.nextId ≤ c.nextId) (hab : FileFrame a b) (hbc : FileFrame b c) : FileFrame a c := by
  intro hk
  have h₁ := hab hk
  have h₂ := hbc h₁.keys
  refine ⟨h₂.keys, ?_, ?_⟩
  · intro x hx
    rcases h₂.attachments x hx with ⟨y, hy, hyx⟩ | hnew
    · rcases h₁.attachments y hy with ⟨z, hz, hzy⟩ | hnew
      · exact .inl ⟨z, hz, hzy.trans hyx⟩
      · exact .inr ⟨hyx.state.trans hnew.state, hyx.leaseToken.trans hnew.leaseToken,
          hyx.id ▸ hnew.id, hyx.storageKey ▸ hnew.storageKey⟩
    · exact .inr ⟨hnew.state, hnew.leaseToken, hid.trans hnew.id, hid.trans hnew.storageKey⟩
  · intro t ht
    rcases h₂.tombstones t ht with ⟨u, hu, hut⟩ | hgone
    · rcases h₁.tombstones u hu with ⟨v, hv, hvu⟩ | hgone
      · exact .inl ⟨v, hv, hvu.trans hut⟩
      · rw [hut] at hgone
        refine .inr ⟨?_, ?_⟩
        · rcases hgone.origin with h | ⟨hle, hlt⟩
          · exact .inl h
          · exact .inr ⟨hle, hlt.trans_le hid'⟩
        · -- the key was drawn before `b`, so no attachment that is new in `c` has it
          intro x hx hxk
          rcases h₂.attachments x hx with ⟨y, hy, hyx⟩ | hnew
          · exact hgone.gone y hy (hyx.storageKey.symm.trans hxk)
          · have hlt : t.storageKey.id < b.nextId := by
              rcases hgone.origin with ⟨z, hz, hzk⟩ | ⟨-, hlt⟩
              · exact hzk ▸ (hk.drawn z hz).2.trans_le hid
              · exact hlt
            exact absurd (hxk ▸ hnew.storageKey) (Nat.not_le.mpr hlt)
    · refine .inr ⟨?_, hgone.gone⟩
      rcases hgone.origin with ⟨y, hy, hyk⟩ | ⟨hle, hlt⟩
      · rcases h₁.attachments y hy with ⟨z, hz, hzy⟩ | hnew
        · exact .inl ⟨z, hz, hzy.storageKey.symm.trans hyk⟩
        · rw [← hyk]
          exact .inr ⟨hnew.storageKey, (h₁.keys.drawn y hy).2.trans_le hid'⟩
      · exact .inr ⟨hid.trans hle, hlt⟩

/-- A transaction that leaves the send lanes and the files alone. -/
structure Passive (db db' : Database Digest) : Prop extends Background db db' where
  files : FileFrame db db'

instance : Std.Refl (@Passive Digest) where
  refl db := { Std.Refl.refl (r := Background) db with files := .of_eq le_rfl rfl rfl }

instance : IsTrans (Database Digest) Passive where
  trans _ _ _ hab hbc :=
    { hab.toBackground.trans hbc.toBackground with
      files := hab.files.trans hab.nextId_le hbc.nextId_le hbc.files }

theorem Passive.trans {a b c : Database Digest} (hab : Passive a b) (hbc : Passive b c) :
    Passive a c :=
  IsTrans.trans _ _ _ hab hbc

/-- A transaction that touches neither the messages nor the outbox tables nor the files. -/
theorem Passive.of_messages_eq {db db' : Database Digest} (hid : db.nextId ≤ db'.nextId)
    (hm : db'.messages = db.messages) (hc : ConversationFrame db db')
    (hb : db'.outboxBatches = db.outboxBatches) (he : db'.outboxEntries = db.outboxEntries)
    (ha : db'.attachmentOutboxEntries = db.attachmentOutboxEntries)
    (hf : db'.attachments = db.attachments) (ht : db'.tombstones = db.tombstones) :
    Passive db db' :=
  { Background.of_messages_eq hid hm hc hb he ha with files := .of_eq hid hf ht }

/-- An update of messages that keeps their views and their conversations. -/
theorem Passive.of_update {db : Database Digest} {p : EmailMessage Digest → Bool}
    {f : EmailMessage Digest → EmailMessage Digest} {keep : ∀ m, (f m).id = m.id}
    (hview : ∀ m, p m → (f m).sendView = m.sendView)
    (hthread : ∀ m, p m → (f m).conversationId = m.conversationId ∨
      ∃ c, m.conversationId = some c ∧ ¬db.Assigned c) :
    Passive db { db with messages := db.messages.update p f keep } :=
  { Background.of_update hview hthread with files := .of_eq le_rfl rfl rfl }

/-! ### Statements -/

section
open Tx

/-- The frame of a transaction that leaves the send lanes and the files alone. -/
abbrev Quiet {α : Type} (x : Transaction Digest α) : Prop := Preserves Passive x

theorem modifyGet_eq_ok {α : Type} {f : Database Digest → α × Database Digest}
    {db db' : Database Digest} {a : α} :
    (modifyGet f : Transaction Digest α) db = .ok (a, db') ↔ f db = (a, db') := by
  change Except.ok (f db) = _ ↔ _
  simp

theorem freshId_eq_ok {db db' : Database Digest} {id : Uuid} :
    freshId db = .ok (id, db') ↔ id = db.nextId ∧ db' = { db with nextId := db.nextId + 1 } := by
  rw [freshId, modifyGet_eq_ok, Prod.mk.injEq]
  constructor <;> rintro ⟨rfl, rfl⟩ <;> exact ⟨rfl, rfl⟩

theorem insertRow_eq_ok {α κ : Type} [DecidableEq κ] {key : α → κ} {t : Database Digest → Table key}
    {put : Database Digest → Table key → Database Digest} {row : α} {db db' : Database Digest}
    {u : Unit} :
    insertRow t put row db = .ok (u, db') ↔ ∃ table, (t db).insert? row = some table ∧
      put db table = db' := by
  simp [insertRow, bind_eq_ok, get_eq_ok, orThrow_eq_ok, modify_eq_ok]

theorem checkTexts_eq_ok {texts : List JsString} {db db' : Database Digest} {u : Unit} :
    checkTexts texts db = .ok (u, db') ↔ texts.all JsString.storable = true ∧ db = db' :=
      ensure_eq_ok

theorem quiet_freshId : Quiet (freshId : Transaction Digest Uuid) := by
  intro db id db' h
  obtain ⟨-, rfl⟩ := freshId_eq_ok.mp h
  exact .of_messages_eq (Nat.le_succ _) rfl (.of_eq rfl) rfl rfl rfl rfl rfl

theorem quiet_insertRow {α κ : Type} [DecidableEq κ] {key : α → κ} {t : Database Digest → Table key}
    {put : Database Digest → Table key → Database Digest} {row : α}
    (h : ∀ db table, (t db).insert? row = some table → Passive db (put db table)) :
    Quiet (insertRow t put row) := by
  intro db u db' hx
  obtain ⟨table, ht, rfl⟩ := insertRow_eq_ok.mp hx
  exact h db table ht

theorem checkMessage_eq_ok {m : EmailMessage Digest} {db db' : Database Digest} {u : Unit} :
    checkMessage m db = .ok (u, db') ↔
      (!db.takenBy m.id EmailMessage.resendEmailId m.resendEmailId) ∧
      (!db.takenBy m.id EmailMessage.internetMessageId m.internetMessageId) ∧
      (!db.takenBy m.id EmailMessage.idempotencyKey m.idempotencyKey) ∧
      (m.conversationId.all fun c => (db.conversations.get? c).isSome) ∧
      (m.parentMessageId.all fun p => (db.messages.get? p).isSome) ∧ m.kindShape ∧ db = db' := by
  simp only [checkMessage, bind_eq_ok, get_eq_ok, ensure_eq_ok]
  constructor
  · rintro ⟨_, _, ⟨rfl, rfl⟩, _, _, ⟨h₁, rfl⟩, _, _, ⟨h₂, rfl⟩, _, _, ⟨h₃, rfl⟩, _, _, ⟨h₄, rfl⟩,
      _, _, ⟨h₅, rfl⟩, h₆, rfl⟩
    exact ⟨h₁, h₂, h₃, h₄, h₅, h₆, rfl⟩
  · rintro ⟨h₁, h₂, h₃, h₄, h₅, h₆, rfl⟩
    exact ⟨_, _, ⟨rfl, rfl⟩, (), _, ⟨h₁, rfl⟩, (), _, ⟨h₂, rfl⟩, (), _, ⟨h₃, rfl⟩, (), _, ⟨h₄, rfl⟩,
      (), _, ⟨h₅, rfl⟩, h₆, rfl⟩

/-- What a committed `emailMessage.create` says about the databases around it. -/
structure MessageCreated (row : Uuid → EmailMessage Digest) (db db' : Database Digest) : Prop where
  free : db.messages.get? (row db.nextId).id = none
  key : ∀ m ∈ db.messages, m.id ≠ (row db.nextId).id → (row db.nextId).idempotencyKey.isSome →
    m.idempotencyKey ≠ (row db.nextId).idempotencyKey
  shape : (row db.nextId).kindShape
  conversation : ∀ c, (row db.nextId).conversationId = some c → (db.conversations.get? c).isSome
  table : ∃ table, db.messages.insert? (row db.nextId) = some table ∧
    db' = { db with nextId := db.nextId + 1, messages := table }

theorem createMessage_eq_ok {row : Uuid → EmailMessage Digest} {db db' : Database Digest}
    {m : EmailMessage Digest} (h : createMessage row db = .ok (m, db')) :
    m = row db.nextId ∧ MessageCreated row db db' := by
  simp only [createMessage, bind_eq_ok, freshId_eq_ok, checkTexts_eq_ok, checkMessage_eq_ok,
    insertRow_eq_ok, pure_eq_ok] at h
  obtain ⟨id, _, ⟨rfl, rfl⟩, _, _, ⟨-, rfl⟩, _, _, ⟨_, _, hkey, hconv, _, hshape, rfl⟩, _, _,
    ⟨table, ht, rfl⟩, rfl, rfl⟩ := h
  refine ⟨rfl, ?_, ?_, hshape, ?_, table, ht, rfl⟩
  · exact Table.insert?_eq_some_iff.mp ⟨table, ht⟩
  · intro m hm hne hsome heq
    simp only [Database.takenBy, hsome, Bool.true_and, Bool.not_eq_true', List.any_eq_false,
      Bool.and_eq_true, bne_iff_ne, ne_eq, beq_iff_eq, not_and] at hkey
    exact hkey m hm hne heq
  · intro c hc
    simpa [hc] using hconv

/-- The lookup of messages after `emailMessage.create`. -/
theorem MessageCreated.get? {row : Uuid → EmailMessage Digest} {db db' : Database Digest}
    (h : MessageCreated row db db') (k : Uuid) :
    db'.messages.get? k =
      if (row db.nextId).id = k then some (row db.nextId) else db.messages.get? k := by
  obtain ⟨table, ht, rfl⟩ := h.table
  exact Table.get?_of_insert? ht k

theorem updateMessage_eq_ok {id : Uuid} {f : EmailMessage Digest → EmailMessage Digest}
    {keep : ∀ m, (f m).id = m.id} {db db' : Database Digest} {r : EmailMessage Digest} :
    updateMessage id f keep db = .ok (r, db') ↔ ∃ m, db.messages.get? id = some m ∧
      (∃ u, checkMessage (f m) db = .ok (u, db)) ∧ r = f m ∧
      db' = { db with messages := db.messages.update (fun m => m.id == id) f keep } := by
  simp only [updateMessage, bind_eq_ok, get_eq_ok, orThrow_eq_ok, modify_eq_ok, pure_eq_ok]
  constructor
  · rintro ⟨_, _, ⟨rfl, rfl⟩, m, _, ⟨hm, rfl⟩, u, _, hc, _, _, rfl, rfl, rfl⟩
    have hdb := (checkMessage_eq_ok.mp hc).2.2.2.2.2.2
    subst hdb
    exact ⟨m, hm, ⟨u, hc⟩, rfl, rfl⟩
  · rintro ⟨m, hm, ⟨u, hc⟩, rfl, rfl⟩
    exact ⟨_, _, ⟨rfl, rfl⟩, m, _, ⟨hm, rfl⟩, u, _, hc, (), _, rfl, rfl, rfl⟩

theorem quiet_updateMessage {id : Uuid} {f : EmailMessage Digest → EmailMessage Digest}
    {keep : ∀ m, (f m).id = m.id} (hview : ∀ m, (f m).sendView = m.sendView)
    (hthread : ∀ m, (f m).conversationId = m.conversationId) : Quiet (updateMessage id f keep) := by
  intro db r db' h
  obtain ⟨m, -, -, -, rfl⟩ := updateMessage_eq_ok.mp h
  exact .of_update (fun m _ => hview m) fun m _ => .inl (hthread m)

theorem updateMessages_eq_ok {p : EmailMessage Digest → Bool}
    {f : EmailMessage Digest → EmailMessage Digest} {keep : ∀ m, (f m).id = m.id}
    {db db' : Database Digest} {n : ℕ} :
    updateMessages p f keep db = .ok (n, db') ↔ n = db.messages.count p ∧
      db' = { db with messages := db.messages.update p f keep } := by
  rw [updateMessages, modifyGet_eq_ok, Prod.mk.injEq]
  constructor <;> rintro ⟨rfl, rfl⟩ <;> exact ⟨rfl, rfl⟩

theorem quiet_updateMessages {p : EmailMessage Digest → Bool}
    {f : EmailMessage Digest → EmailMessage Digest} {keep : ∀ m, (f m).id = m.id}
    (hview : ∀ m, (f m).sendView = m.sendView)
    (hthread : ∀ m, (f m).conversationId = m.conversationId) : Quiet (updateMessages p f keep) := by
  intro db n db' h
  obtain ⟨-, rfl⟩ := updateMessages_eq_ok.mp h
  exact .of_update (fun m _ => hview m) fun m _ => .inl (hthread m)

theorem quiet_createMessage {row : Uuid → EmailMessage Digest} (hid : ∀ id, (row id).id = id)
    (hin : ∀ id, (row id).sendView.Inbound) : Quiet (createMessage row) := by
  intro db m db' h
  obtain ⟨-, hc⟩ := createMessage_eq_ok h
  have hget := hc.get?
  have hfree := hc.free
  obtain ⟨table, ht, rfl⟩ := hc.table
  simp only [hid] at hget hfree
  exact
    { nextId_le := Nat.le_succ _
      view := by
        intro id v hv
        obtain ⟨m, hm, rfl⟩ := Database.view?_eq_some.mp hv
        refine Database.view?_eq_some.mpr ⟨m, ?_, rfl⟩
        rw [hget id, if_neg, hm]
        rintro rfl
        rw [hfree] at hm
        cases hm
      fresh := by
        intro id v hv hnone
        obtain ⟨m, hm, rfl⟩ := Database.view?_eq_some.mp hv
        rw [Database.view?_eq_none] at hnone
        rw [hget id] at hm
        split at hm
        next heq =>
          cases hm
          exact ⟨heq.le, heq ▸ Nat.lt_succ_self _, hin _⟩
        next => simp [hnone] at hm
      conversations := .of_eq rfl
      threads := by
        intro id m m' hm hm'
        rw [hget id] at hm'
        split at hm'
        next heq =>
          rw [← heq, hfree] at hm
          cases hm
        next =>
          rw [hm] at hm'
          cases hm'
          exact .inl rfl
      batches := rfl
      entries := rfl
      attachmentEntries := rfl
      files := .of_eq (Nat.le_succ _) rfl rfl }

end

end ResendConversation
