import Mathlib.Order.Bounds.Basic
import Mathlib.Data.List.MinMax
import ResendConversation.StatementRows

/-! # The times of messages

`lastMessageAt` is written by every transaction that adds messages to a conversation or moves
them there.  `Timely D` says that outside the conversations `D` neither the times of the
messages nor the date of a conversation change; the transactions that do change them are
followed to their end, where the conversation is `Dated` again. -/

namespace ResendConversation

open Foundation Tx

variable {Digest : Type} {G : Grant Digest} {D : Set Uuid} {db db' : Database Digest}

/-- The times of the messages of a conversation. -/
def Database.messageTimes (db : Database Digest) (c : Uuid) : Set Time :=
  {t | ∃ m ∈ db.messages, m.conversationId = some c ∧ m.emailCreatedAt = t}

/-- The conversation has messages, and is dated by the latest of them. -/
def Database.Dated (db : Database Digest) (c : Uuid) : Prop :=
  ∀ row, db.conversations.get? c = some row → IsGreatest (db.messageTimes c) row.lastMessageAt

/-! ### Frames -/

structure Timely (D : Set Uuid) (db db' : Database Digest) : Prop where
  times : ∀ c ∉ D, db'.messageTimes c = db.messageTimes c
  dates : ∀ c ∉ D, ∀ row', db'.conversations.get? c = some row' →
    ∃ row, db.conversations.get? c = some row ∧ row'.lastMessageAt = row.lastMessageAt

instance : Std.Refl (@Timely Digest D) where
  refl _ := ⟨fun _ _ => rfl, fun _ _ row' h => ⟨row', h, rfl⟩⟩

instance : IsTrans (Database Digest) (Timely D) where
  trans _ _ _ h h' := by
    refine ⟨fun c hc => (h'.times c hc).trans (h.times c hc), fun c hc row'' hrow'' => ?_⟩
    obtain ⟨row', hrow', hdate'⟩ := h'.dates c hc row'' hrow''
    obtain ⟨row, hrow, hdate⟩ := h.dates c hc row' hrow'
    exact ⟨row, hrow, hdate'.trans hdate⟩

theorem Timely.trans {a b c : Database Digest} (h : Timely D a b) (h' : Timely D b c) :
    Timely D a c :=
  IsTrans.trans _ _ _ h h'

theorem Timely.mono {E : Set Uuid} (h : Timely D db db') (hle : D ⊆ E) : Timely E db db' :=
  ⟨fun c hc => h.times c fun hmem => hc (hle hmem), fun c hc => h.dates c fun hmem => hc (hle hmem)⟩

theorem Timely.dated (h : Timely D db db') {c : Uuid} (hc : c ∉ D) (hd : db.Dated c) :
    db'.Dated c := by
  intro row' hrow'
  obtain ⟨row, hrow, hdate⟩ := h.dates c hc row' hrow'
  rw [h.times c hc, hdate]
  exact hd row hrow

/-- Updated messages stay in their conversations under their times. -/
theorem messageTimes_update {p : EmailMessage Digest → Bool}
    {f : EmailMessage Digest → EmailMessage Digest} {messages : Table EmailMessage.id}
    (h : ∃ keep, messages = db.messages.update p f keep)
    (hf : ∀ m, (f m).conversationId = m.conversationId ∧ (f m).emailCreatedAt = m.emailCreatedAt)
    (hdb : db'.messages = messages) (c : Uuid) : db'.messageTimes c = db.messageTimes c := by
  obtain ⟨keep, rfl⟩ := h
  have hcolumns : ∀ m, (if p m then f m else m).conversationId = m.conversationId ∧
      (if p m then f m else m).emailCreatedAt = m.emailCreatedAt := by
    intro m
    split
    · exact hf m
    · exact ⟨rfl, rfl⟩
  ext t
  constructor
  · rintro ⟨m', hm', hc, ht⟩
    obtain ⟨m, hm, rfl⟩ := Table.mem_update.mp (hdb ▸ hm')
    exact ⟨m, hm, (hcolumns m).1 ▸ hc, (hcolumns m).2 ▸ ht⟩
  · rintro ⟨m, hm, hc, ht⟩
    refine ⟨_, hdb ▸ Table.mem_update.mpr ⟨m, hm, rfl⟩, ?_, ?_⟩
    · exact (hcolumns m).1.trans hc
    · exact (hcolumns m).2.trans ht

theorem Timely.of_messages {p : EmailMessage Digest → Bool}
    {f : EmailMessage Digest → EmailMessage Digest} {messages : Table EmailMessage.id}
    (h : ∃ keep, messages = db.messages.update p f keep)
    (hf : ∀ m, (f m).conversationId = m.conversationId ∧ (f m).emailCreatedAt = m.emailCreatedAt) :
    Timely D db { db with messages := messages } :=
  ⟨fun c _ => messageTimes_update h hf rfl c, fun _ _ row' hrow' => ⟨row', hrow', rfl⟩⟩

/-- Updated conversations keep their dates, but for some. -/
theorem Timely.of_conversations {p : EmailConversation → Bool}
    {f : EmailConversation → EmailConversation} (hm : db'.messages = db.messages)
    (h : ∃ keep, db'.conversations = db.conversations.update p f keep)
    (hf : ∀ c, p c = true → c.id ∉ D → (f c).lastMessageAt = c.lastMessageAt) :
    Timely D db db' := by
  obtain ⟨keep, h⟩ := h
  refine ⟨fun c _ => ?_, fun c hc row' hrow' => ?_⟩
  · unfold Database.messageTimes
    rw [hm]
  rw [h, Table.get?_update] at hrow'
  obtain ⟨row, hrow, rfl⟩ := Option.map_eq_some_iff.mp hrow'
  refine ⟨row, hrow, ?_⟩
  split
  next hp => exact hf row hp (Table.key_of_get? hrow ▸ hc)
  · rfl

theorem Timely.of_eq (hm : db'.messages = db.messages) (hc : db'.conversations = db.conversations) :
    Timely D db db' := by
  refine ⟨fun c _ => ?_, fun c _ row' hrow' => ⟨row', hc ▸ hrow', rfl⟩⟩
  unfold Database.messageTimes
  rw [hm]

/-- Conversations are deleted with their messages. -/
theorem timely_deleteConversations (now : Time) {ids : List Uuid} (db : Database Digest)
    (hids : ∀ c ∈ ids, c ∈ D) : Timely D db (deleteConversations now ids db) := by
  obtain ⟨n, tombstones, hdeleted⟩ := deleteConversations_exact now ids db
  rw [hdeleted.eq]
  refine ⟨fun c hc => ?_, fun c hc row' hrow' => ?_⟩
  · have hnot : c ∉ ids := fun hmem => hc (hids c hmem)
    have hkept : Database.messageTimes { db with
        messages := db.messages.delete fun m => m.conversationId.any ids.contains } c =
          db.messageTimes c := by
      ext t
      constructor
      · rintro ⟨m, hm, hmc, ht⟩
        exact ⟨m, (Table.mem_delete.mp hm).1, hmc, ht⟩
      · rintro ⟨m, hm, hmc, ht⟩
        exact ⟨m, Table.mem_delete.mpr ⟨hm, by simp [hmc, hnot]⟩, hmc, ht⟩
    rw [← hkept]
    refine messageTimes_update ⟨by exact fun _ => rfl, rfl⟩ ?_ rfl c
    exact fun _ => ⟨rfl, rfl⟩
  · have hget := Option.filter_eq_some_iff.mp ((Table.get?_delete c).symm.trans hrow')
    exact ⟨row', hget.1, rfl⟩

/-! ### Statements -/

/-- The grant touches the times of the given conversations only. -/
structure Grant.Timeless (G : Grant Digest) (D : Set Uuid) : Prop where
  conversation : ∀ c, G.conversation c → c.id ∈ D := by exact fun _ h => h.elim
  message : ∀ db m c, G.message db m → m.conversationId = some c →
    c ∈ D := by exact fun _ _ _ h => h.elim
  identify : ∀ id, ¬G.identify id := by exact fun _ h => h.elim
  reopen : ∀ value, ¬G.reopen value := by exact fun _ h => h.elim
  delete : ∀ db c, G.delete db c → c ∈ D := by exact fun _ _ h => h.elim
  rethread : ¬G.rethread := by exact fun h => h.elim

theorem Statement.timely (h : Statement G db db') (hG : G.Timeless D) : Timely D db db' := by
  cases h with
  | conversation c table granted id sequence insert =>
      refine ⟨fun _ _ => rfl, fun d hd row' hrow' => ?_⟩
      have hne : c.id ≠ d := by
        rintro rfl
        exact hd (hG.conversation c granted)
      rw [Table.get?_of_insert? insert, if_neg hne] at hrow'
      exact ⟨row', hrow', rfl⟩
  | turn p state changedAt =>
      exact .of_conversations rfl ⟨by exact fun _ => rfl, rfl⟩ (by exact fun _ _ _ => rfl)
  | merge target sources =>
      exact .of_conversations rfl ⟨by exact fun _ => rfl, rfl⟩ (by exact fun _ _ _ => rfl)
  | date id latest granted => exact absurd granted hG.rethread
  | reply id base now granted => exact absurd granted hG.rethread
  | reopen id value now granted => exact absurd granted (hG.reopen value)
  | assign id topic title =>
      exact .of_conversations rfl ⟨by exact fun _ => rfl, rfl⟩ (by exact fun _ _ _ => rfl)
  | message m table granted id shape placed insert =>
      refine ⟨fun c hc => ?_, fun _ _ row' hrow' => ⟨row', hrow', rfl⟩⟩
      have hne : m.conversationId ≠ some c := fun heq => hc (hG.message db m c granted heq)
      ext t
      constructor
      · rintro ⟨m', hm', hmc, ht⟩
        rcases (Table.mem_insert? insert).mp hm' with hold | rfl
        · exact ⟨m', hold, hmc, ht⟩
        · exact absurd hmc hne
      · rintro ⟨m', hm', hmc, ht⟩
        exact ⟨m', (Table.mem_insert? insert).mpr (.inl hm'), hmc, ht⟩
  | settle p outcome =>
      exact .of_messages ⟨by exact fun _ => rfl, rfl⟩ fun _ => ⟨rfl, rfl⟩
  | identify id mid at_ granted => exact absurd granted (hG.identify mid)
  | name id mid granted => exact absurd granted (hG.identify mid)
  | move target sources granted => exact absurd granted hG.rethread
  | adopt parent p => exact .of_messages ⟨by exact fun _ => rfl, rfl⟩ fun _ => ⟨rfl, rfl⟩
  | delete now ids granted =>
      exact timely_deleteConversations now db fun c hc => hG.delete db c (granted c hc)
  | event e c events deliveries found sequence id granted insert insertDelivery =>
      exact .of_conversations rfl ⟨by exact fun _ => rfl, rfl⟩ (by exact fun _ _ _ => rfl)
  | expire now p granted selects =>
      obtain ⟨n, tombstones, -, heq, -⟩ := deleteAttachments_eq now p db
      rw [heq]
      exact .of_eq rfl rfl
  | tombstone now key =>
      obtain ⟨n, tombstones, -, heq, -⟩ := tombstoneFor_tombstoned now key db
      rw [heq]
      exact .of_eq rfl rfl
  | _ => exact .of_eq rfl rfl

theorem Performs.timely (h : Performs G db db') (hG : G.Timeless D) : Timely D db db' :=
  (h.relates (I := fun _ => True) trivial fun _ _ _ hs => ⟨trivial, hs.timely hG⟩).2

end ResendConversation
