import ResendConversation.StatementRows

/-! # The event log

Events are appended under the next number of their conversation, each with its delivery row,
and only the deletion of a conversation by the operator removes any.  So, as long as the
operator deletes nothing, the events of a conversation are numbered from 1 without a gap, also
those of a conversation that was merged away (`Database.Numbered`). -/

namespace ResendConversation

open Foundation Tx

variable {Digest : Type} {G : Grant Digest} {db db' : Database Digest}

/-! ### Statements -/

/-- What a statement does to the event log. -/
inductive EventsChange (G : Grant Digest) (db db' : Database Digest) : Prop
  | same (events : db'.conversationEvents = db.conversationEvents)
      (deliveries : db'.conversationEventDeliveries = db.conversationEventDeliveries)
      (counters : ∀ c' ∈ db'.conversations,
        (∃ c ∈ db.conversations, c.id = c'.id ∧ c.eventSequence = c'.eventSequence) ∨
          (c'.id = db.nextId ∧ db.nextId < db'.nextId ∧ c'.eventSequence = 0))
  | append (e : ConversationEvent) (c : EmailConversation) (drawn : db.nextId < db'.nextId)
      (found : db.conversations.get? e.conversationId = some c)
      (sequence : e.sequence = c.eventSequence + 1) (id : e.id = db.nextId)
      (granted : e.type = .deleted → G.purge e.conversationId)
      (insert : db.conversationEvents.insert? e = some db'.conversationEvents)
      (insertDelivery : db.conversationEventDeliveries.insert? ⟨e.id⟩ =
        some db'.conversationEventDeliveries)
      (counters : db'.conversations = db.conversations.update (fun c => c.id == e.conversationId)
        fun c => { c with eventSequence := c.eventSequence + 1 })
  | purge (conversationId : Uuid) (kept : Option Uuid) (granted : G.purge conversationId)
      (eq : db' = deleteConversationEvents conversationId kept db)

/-- An update of conversations that leaves their counters alone. -/
theorem EventsChange.of_update {p : EmailConversation → Bool}
    {f : EmailConversation → EmailConversation}
    (hc : ∃ keep, db'.conversations = db.conversations.update p f keep)
    (he : db'.conversationEvents = db.conversationEvents)
    (hd : db'.conversationEventDeliveries = db.conversationEventDeliveries)
    (hf : ∀ c, (f c).eventSequence = c.eventSequence) : EventsChange G db db' := by
  obtain ⟨keep, hc⟩ := hc
  refine .same he hd fun c' hc' => .inl ?_
  rw [hc] at hc'
  obtain ⟨c, hmem, rfl⟩ := Table.mem_update.mp hc'
  refine ⟨c, hmem, ?_⟩
  split
  · exact ⟨(keep c).symm, (hf c).symm⟩
  · exact ⟨rfl, rfl⟩

theorem Statement.events_change (h : Statement G db db') : EventsChange G db db' := by
  have hsame : ∀ c' ∈ db.conversations, ∃ c ∈ db.conversations, c.id = c'.id ∧
      c.eventSequence = c'.eventSequence :=
    fun c' hc' => ⟨c', hc', rfl, rfl⟩
  cases h with
  | conversation c table granted id sequence insert =>
      refine .same rfl rfl fun c' hc' => ?_
      rcases (Table.mem_insert? insert).mp hc' with hold | rfl
      · exact .inl (hsame c' hold)
      · exact .inr ⟨id, Nat.lt_add_of_pos_right Nat.two_pos, sequence⟩
  | turn p state changedAt => exact .of_update ⟨by exact fun _ => rfl, rfl⟩ rfl rfl fun _ => rfl
  | merge target sources => exact .of_update ⟨by exact fun _ => rfl, rfl⟩ rfl rfl fun _ => rfl
  | date id latest granted => exact .of_update ⟨by exact fun _ => rfl, rfl⟩ rfl rfl fun _ => rfl
  | reply id base now granted => exact .of_update ⟨by exact fun _ => rfl, rfl⟩ rfl rfl fun _ => rfl
  | reopen id value now granted =>
      exact .of_update ⟨by exact fun _ => rfl, rfl⟩ rfl rfl fun _ => rfl
  | assign id topic title => exact .of_update ⟨by exact fun _ => rfl, rfl⟩ rfl rfl fun _ => rfl
  | event e c events deliveries found sequence id granted insert insertDelivery =>
      exact .append e c (Nat.lt_succ_self _) found sequence id granted insert insertDelivery rfl
  | purge c kept granted => exact .purge c kept granted rfl
  | delete now ids granted =>
      obtain ⟨n, tombstones, hdeleted⟩ := deleteConversations_exact now ids db
      rw [hdeleted.eq]
      exact .same rfl rfl fun c' hc' => .inl (hsame c' (Table.mem_delete.mp hc').1)
  | expire now p granted selects =>
      obtain ⟨n, tombstones, -, heq, -⟩ := deleteAttachments_eq now p db
      rw [heq]
      exact .same rfl rfl fun c' hc' => .inl (hsame c' hc')
  | tombstone now key =>
      obtain ⟨n, tombstones, -, heq, -⟩ := tombstoneFor_tombstoned now key db
      rw [heq]
      exact .same rfl rfl fun c' hc' => .inl (hsame c' hc')
  | _ => exact .same rfl rfl fun c' hc' => .inl (hsame c' hc')

/-! ### Numbers -/

/-- The events of the conversation `c` are numbered from 1 to `n`. -/
def Database.NumberedTo (db : Database Digest) (c : Uuid) (n : ℕ) : Prop :=
  (∀ e ∈ db.conversationEvents, e.conversationId = c → 1 ≤ e.sequence ∧ e.sequence ≤ n) ∧
    ∀ k, 1 ≤ k → k ≤ n → ∃ e ∈ db.conversationEvents, e.conversationId = c ∧ e.sequence = k

structure Database.Numbered (db : Database Digest) : Prop where
  conversation_lt : ∀ c ∈ db.conversations, c.id < db.nextId
  event_lt : ∀ e ∈ db.conversationEvents, e.conversationId < db.nextId
  numbered : ∀ c, ∃ n, db.NumberedTo c n ∧
    ∀ row ∈ db.conversations, row.id = c → row.eventSequence = n
  distinct : ∀ e ∈ db.conversationEvents, ∀ e' ∈ db.conversationEvents,
    e.conversationId = e'.conversationId → e.sequence = e'.sequence → e = e'
  delivered : ∀ e ∈ db.conversationEvents, (db.conversationEventDeliveries.get? e.id).isSome

theorem numbered_initial : (Database.initial : Database Digest).Numbered := by
  have hevents : ∀ e, e ∉ (Database.initial : Database Digest).conversationEvents :=
    fun e he => by cases he
  have hrows : ∀ c, c ∉ (Database.initial : Database Digest).conversations :=
    fun c hc => by cases hc
  refine ⟨fun c hc => absurd hc (hrows c), fun e he => absurd he (hevents e),
    fun c => ⟨0, ⟨?_, ?_⟩, ?_⟩,
    fun e he => absurd he (hevents e), fun e he => absurd he (hevents e)⟩
  · exact fun e he => absurd he (hevents e)
  · intro k hk hk'
    omega
  · exact fun row hrow => absurd hrow (hrows row)

/-- No event is numbered for a conversation that does not exist yet. -/
theorem Database.Numbered.unused (hn : db.Numbered) {c : Uuid} (hc : db.nextId ≤ c) {n : ℕ}
    (h : db.NumberedTo c n) : n = 0 := by
  by_contra hne
  obtain ⟨e, he, rfl, -⟩ := h.2 1 le_rfl (by omega)
  exact absurd hc (hn.event_lt e he).not_ge

theorem Database.NumberedTo.of_eq {c : Uuid} {n : ℕ} (h : db.NumberedTo c n)
    (he : db'.conversationEvents = db.conversationEvents) : db'.NumberedTo c n := by
  unfold NumberedTo
  rw [he]
  exact h

/-- An event under the next number of its conversation. -/
theorem Database.NumberedTo.append {c : Uuid} {n : ℕ} (h : db.NumberedTo c n)
    {e : ConversationEvent} (hc : e.conversationId = c) (hsequence : e.sequence = n + 1)
    (insert : db.conversationEvents.insert? e = some db'.conversationEvents) :
    db'.NumberedTo c (n + 1) := by
  constructor
  · intro e' he' hc'
    rcases (Table.mem_insert? insert).mp he' with hold | rfl
    · have := h.1 e' hold hc'
      omega
    · omega
  · intro k hk hk'
    by_cases hlast : k = n + 1
    · exact ⟨e, (Table.mem_insert? insert).mpr (.inr rfl), hc, hsequence.trans hlast.symm⟩
    · obtain ⟨e', he', hrest⟩ := h.2 k hk (by omega)
      exact ⟨e', (Table.mem_insert? insert).mpr (.inl he'), hrest⟩

theorem Database.NumberedTo.append_other {c : Uuid} {n : ℕ} (h : db.NumberedTo c n)
    {e : ConversationEvent} (hc : e.conversationId ≠ c)
    (insert : db.conversationEvents.insert? e = some db'.conversationEvents) :
    db'.NumberedTo c n := by
  constructor
  · intro e' he' hc'
    rcases (Table.mem_insert? insert).mp he' with hold | rfl
    · exact h.1 e' hold hc'
    · exact absurd hc' hc
  · intro k hk hk'
    obtain ⟨e', he', hrest⟩ := h.2 k hk hk'
    exact ⟨e', (Table.mem_insert? insert).mpr (.inl he'), hrest⟩

theorem Statement.numbered (h : Statement G db db') (hG : ∀ c, ¬G.purge c) (hn : db.Numbered) :
    db'.Numbered := by
  have hle : db.nextId ≤ db'.nextId := nextId_le_performs (.single h)
  cases h.events_change with
  | same events deliveries counters =>
      refine ⟨fun c' hc' => ?_, ?_, fun c => ?_, ?_, ?_⟩
      · rcases counters c' hc' with ⟨c, hc, hid, -⟩ | ⟨hid, hlt, -⟩
        · exact hid ▸ (hn.conversation_lt c hc).trans_le hle
        · exact hid ▸ hlt
      · rw [events]
        exact fun e he => (hn.event_lt e he).trans_le hle
      · obtain ⟨n, hto, hrow⟩ := hn.numbered c
        refine ⟨n, hto.of_eq events, fun row hmem hid => ?_⟩
        rcases counters row hmem with ⟨c₀, hc₀, hid₀, hcount⟩ | ⟨hid₀, -, hzero⟩
        · rw [← hcount]
          exact hrow c₀ hc₀ (hid₀.trans hid)
        · rw [hzero, hn.unused (hid.symm.trans hid₀).ge hto]
      · rw [events]
        exact hn.distinct
      · rw [events, deliveries]
        exact hn.delivered
  | append e c drawn found sequence id granted insert insertDelivery counters =>
      have hc := Table.mem_of_get? found
      have hid := Table.key_of_get? found
      obtain ⟨n, hto, hrow⟩ := hn.numbered e.conversationId
      obtain rfl := hrow c hc hid
      have hmem := fun e' => Table.mem_insert? (s := e') insert
      refine ⟨fun c' hc' => ?_, fun e' he' => ?_, fun d => ?_, fun e' he' e'' he'' hconv hseq => ?_,
        fun e' he' => ?_⟩
      · rw [counters] at hc'
        obtain ⟨c₀, hc₀, rfl⟩ := Table.mem_update.mp hc'
        have hlt := (hn.conversation_lt c₀ hc₀).trans_le hle
        split
        · exact hlt
        · exact hlt
      · rcases (hmem e').mp he' with hold | rfl
        · exact (hn.event_lt e' hold).trans_le hle
        · exact hid ▸ (hn.conversation_lt c hc).trans_le hle
      · by_cases hd : e.conversationId = d
        · subst hd
          refine ⟨c.eventSequence + 1, hto.append rfl sequence insert, fun row hrow' hrowid => ?_⟩
          rw [counters] at hrow'
          obtain ⟨c₀, hc₀, rfl⟩ := Table.mem_update.mp hrow'
          split at hrowid
          next hsel =>
            rw [if_pos hsel]
            exact congrArg (· + 1) (hrow c₀ hc₀ hrowid)
          next hsel => exact absurd (beq_iff_eq.mpr hrowid) hsel
        · obtain ⟨m, hto', hrow'⟩ := hn.numbered d
          refine ⟨m, hto'.append_other hd insert, fun row hmem' hrowid => ?_⟩
          rw [counters] at hmem'
          obtain ⟨c₀, hc₀, rfl⟩ := Table.mem_update.mp hmem'
          split at hrowid
          next hsel => exact absurd ((beq_iff_eq.mp hsel).symm.trans hrowid) hd
          next hsel =>
            rw [if_neg hsel]
            exact hrow' c₀ hc₀ hrowid
      · rcases (hmem e').mp he' with hold | rfl
        · rcases (hmem e'').mp he'' with hold' | rfl
          · exact hn.distinct e' hold e'' hold' hconv hseq
          · have := (hto.1 e' hold hconv).2
            omega
        · rcases (hmem e'').mp he'' with hold' | rfl
          · have := (hto.1 e'' hold' hconv.symm).2
            omega
          · rfl
      · rw [Table.get?_of_insert? insertDelivery]
        split
        · rfl
        next hne =>
          rcases (hmem e').mp he' with hold | rfl
          · exact hn.delivered e' hold
          · exact absurd rfl hne
  | purge conversationId kept granted eq => exact absurd granted (hG conversationId)

end ResendConversation
