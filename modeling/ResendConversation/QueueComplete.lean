import ResendConversation.Coherence

/-! # No queued mail is lost

What coherence says about the queue, in the terms of its rows: a queued message is pending as
long as exactly one outbox entry refers to it, in the lane that its request fixed, and every
batch and position is consistent. -/

namespace ResendConversation

open Foundation

variable {Digest : Type} {rt : Runtime Digest}

/-- The message was stored by a queued request, with or without attachments. -/
def EmailMessage.QueuedBy (rt : Runtime Digest) (m : EmailMessage Digest) (attachments : Bool) :
    Prop :=
  ∃ request : SendRequest, m.requestHash = some (rt.hashSendRequest request) ∧
    request.queued = true ∧ request.hasAttachments = attachments

/-- The number of outbox entries of both lanes that refer to a message. -/
def Database.entriesOf (db : Database Digest) (id : Uuid) : ℕ :=
  db.outboxEntries.count (fun e => e.messageId == id) +
    db.attachmentOutboxEntries.count fun e => e.messageId == id

structure QueueComplete (rt : Runtime Digest) (db : Database Digest) : Prop where
  pending_iff : ∀ m ∈ db.messages, ∀ attachments, m.QueuedBy rt attachments →
    (m.state = .pending ↔ db.entriesOf m.id = 1)
  terminal : ∀ m ∈ db.messages, m.state ≠ .pending → db.entriesOf m.id = 0
  lane : ∀ m ∈ db.messages, ∀ attachments, m.QueuedBy rt attachments →
    (∀ e ∈ db.outboxEntries, e.messageId = m.id → attachments = false) ∧
      ∀ e ∈ db.attachmentOutboxEntries, e.messageId = m.id → attachments = true
  batched : ∀ e ∈ db.outboxEntries, ∀ b, e.batchId = some b →
    ∃ batch ∈ db.outboxBatches, batch.id = b
  position : ∀ e ∈ db.outboxEntries, ∀ e' ∈ db.outboxEntries, e.batchId.isSome →
    e'.batchId = e.batchId → e'.batchPosition = e.batchPosition → e = e'

/-- An entry in one of the lanes. -/
def Database.InLane (db : Database Digest) (id : Uuid) : Bool → Prop
  | false => ∃ e ∈ db.outboxEntries, e.messageId = id
  | true => ∃ e ∈ db.attachmentOutboxEntries, e.messageId = id

instance (db : Database Digest) (id : Uuid) : ∀ attachments, Decidable (db.InLane id attachments)
  | false => inferInstanceAs (Decidable (∃ e ∈ db.outboxEntries, e.messageId = id))
  | true => inferInstanceAs (Decidable (∃ e ∈ db.attachmentOutboxEntries, e.messageId = id))

theorem Queue.inLane_iff {db : Database Digest} (h : Queue rt db) {id : Uuid} {attachments : Bool} :
    db.InLane id attachments ↔ db.Queued rt id attachments := by
  cases attachments with
  | false =>
      refine ⟨?_, h.waits id⟩
      rintro ⟨e, he, rfl⟩
      exact h.entry e he
  | true =>
      refine ⟨?_, h.waitsAttachments id⟩
      rintro ⟨e, he, rfl⟩
      exact h.attachmentEntry e he

theorem Database.entriesOf_eq (db : Database Digest) (id : Uuid) :
    db.entriesOf id = (if db.InLane id false then 1 else 0) + if db.InLane id true then 1
      else 0 := by
  have hlane : ∀ {α : Type} {key : α → Uuid} (t : Table key),
      t.count (fun e => key e == id) = if ∃ e ∈ t, key e = id then 1 else 0 := by
    intro α key t
    rw [Table.count_eq (fun e => beq_iff_eq)]
    refine if_congr ?_ rfl rfl
    rw [Option.isSome_iff_exists]
    exact exists_congr fun e => Table.get?_eq_some
  rw [entriesOf, hlane db.outboxEntries, hlane db.attachmentOutboxEntries]
  rfl

theorem Coherent.queue_is_complete {s : System Digest}
    (hinj : Function.Injective rt.hashSendRequest) (h : Coherent rt s) : QueueComplete rt s.db := by
  have hlane : ∀ m ∈ s.db.messages, ∀ attachments, s.db.InLane m.id attachments →
      m.state = .pending ∧ m.QueuedBy rt attachments := by
    intro m hm attachments hin
    obtain ⟨v, hv, hp, request, hr, hq⟩ := h.queue.inLane_iff.mp hin
    rw [Database.view?_of_get? (Table.mem_iff_get?.mp hm)] at hv
    cases hv
    exact ⟨hp, request, hr, hq⟩
  have hunique : ∀ m : EmailMessage Digest, ∀ a a', m.QueuedBy rt a → m.QueuedBy rt a' →
      a = a' := by
    rintro m a a' ⟨r, hr, -, rfl⟩ ⟨r', hr', -, rfl⟩
    rw [hr] at hr'
    rw [hinj (Option.some.inj hr')]
  refine ⟨?_, ?_, ?_, ?_, h.queue.position⟩
  · intro m hm attachments hq
    have hother : ¬s.db.InLane m.id (!attachments) := fun hin => by
      have := hunique m _ _ hq (hlane m hm _ hin).2
      simp at this
    have hmine : s.db.InLane m.id attachments ↔ m.state = .pending := by
      refine ⟨fun hin => (hlane m hm _ hin).1, fun hp => ?_⟩
      obtain ⟨request, hr, hrest⟩ := hq
      exact h.queue.inLane_iff.mpr
        ⟨_, Database.view?_of_get? (Table.mem_iff_get?.mp hm), hp, request, hr, hrest⟩
    rw [Database.entriesOf_eq, ← hmine]
    cases attachments with
    | false => simp [show ¬s.db.InLane m.id true from hother]
    | true => simp [show ¬s.db.InLane m.id false from hother]
  · intro m hm hne
    have hout : ∀ attachments, ¬s.db.InLane m.id attachments := fun a hin =>
      hne (hlane m hm a hin).1
    rw [Database.entriesOf_eq, if_neg (hout false), if_neg (hout true)]
  · intro m hm attachments hq
    refine ⟨fun e he hid => ?_, fun e he hid => ?_⟩
    · exact hunique m _ _ hq (hlane m hm false ⟨e, he, hid⟩).2
    · exact hunique m _ _ hq (hlane m hm true ⟨e, he, hid⟩).2
  · intro e he b hb
    obtain ⟨batch, hbatch⟩ := Option.isSome_iff_exists.mp (h.queue.batched e he b hb)
    exact ⟨batch, Table.mem_of_get? hbatch, Table.key_of_get? hbatch⟩

variable [DecidableEq Digest]

/-- In every reachable state the queue is complete. -/
theorem Reachable.queueComplete {s : System Digest} (hinj : Function.Injective rt.hashSendRequest)
    (h : Reachable rt s) : QueueComplete rt s.db :=
  (h.coherent hinj).queue_is_complete hinj

/-- A queue with one waiting message. -/
theorem queueComplete_reference : ∃ s, s.db.outboxEntries.rows.length = 1 ∧
    Function.Injective Runtime.reference.hashSendRequest ∧ Reachable .reference s ∧
      QueueComplete .reference s.db := by
  obtain ⟨s, hrun, hs⟩ : ∃ s, Run (step .reference) Always .reference s ∧
      s.db.outboxEntries.rows.length = 1 := Run.exists_of_exec
    (Reference.grants ++ Reference.submit 0 (Reference.direct true (js "s")) (js "k"))
    (by decide +kernel)
  have hr := Reachable.of_run hrun
  exact ⟨s, hs, Runtime.reference_injective, hr, hr.queueComplete Runtime.reference_injective⟩

end ResendConversation
