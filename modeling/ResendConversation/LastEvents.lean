import ResendConversation.PublicationOrder
import ResendConversation.ThreadRuns

/-! # The last event of a conversation

The deletion of a conversation leaves its `deleted` event as the only one that is stored
(`Database.Farewell`), so nothing but that event can be claimed from then on.  A delivery that
a runtime has claimed before is out of the reach of the deletion: the runtime may publish it
after another runtime has published the `deleted` event. -/

namespace ResendConversation

open Foundation Tx

variable {Digest : Type}

/-! ### The database -/

/-- The conversation is gone, and the event is the only one stored for it. -/
structure Database.Farewell (db : Database Digest) (e : ConversationEvent) : Prop where
  event : e ∈ db.conversationEvents
  absent : db.conversations.get? e.conversationId = none
  drawn : e.conversationId < db.nextId
  only : ∀ e' ∈ db.conversationEvents, e'.conversationId = e.conversationId → e' = e

/-- Every `deleted` event is the farewell of its conversation. -/
def Database.Closed (db : Database Digest) : Prop :=
  ∀ e ∈ db.conversationEvents, e.type = .deleted → db.Farewell e

section Statements

variable {G : Grant Digest} {db db' : Database Digest} {e : ConversationEvent}

theorem Statement.farewell (h : Statement G db db') (hG : ¬G.purge e.conversationId)
    (hf : db.Farewell e) :
    db'.Farewell e := by
  have hle : db.nextId ≤ db'.nextId := nextId_le_performs (.single h)
  cases h.events_change with
  | same events deliveries counters =>
      refine ⟨?_, Table.get?_eq_none.mpr fun c' hc' hid => ?_, hf.drawn.trans_le hle, ?_⟩
      · rw [events]
        exact hf.event
      · rcases counters c' hc' with ⟨c, hc, hid', -⟩ | ⟨hid', -, -⟩
        · exact Table.get?_eq_none.mp hf.absent c hc (hid'.trans hid)
        · exact absurd hf.drawn (hid ▸ hid'.ge : db.nextId ≤ e.conversationId).not_gt
      · rw [events]
        exact hf.only
  | append e' c drawn found sequence id granted insert insertDelivery counters =>
      refine ⟨(Table.mem_insert? insert).mpr (.inl hf.event), ?_, hf.drawn.trans_le hle,
        fun e'' he'' hc => ?_⟩
      · rw [counters, Table.get?_update, hf.absent]
        rfl
      · rcases (Table.mem_insert? insert).mp he'' with hold | rfl
        · exact hf.only e'' hold hc
        · rw [hc, hf.absent] at found
          cases found
  | purge conversationId kept granted eq =>
      have hne : e.conversationId ≠ conversationId := by
        rintro rfl
        exact hG granted
      subst eq
      refine ⟨Table.mem_delete.mpr ⟨hf.event, by simp [hne]⟩, hf.absent, hf.drawn.trans_le hle,
        fun e' he' => hf.only e' (Table.mem_delete.mp he').1⟩

theorem Performs.farewell (h : Performs G db db') (hG : ¬G.purge e.conversationId)
    (hf : db.Farewell e) :
    db'.Farewell e :=
  h.invariant hf fun _ _ hf hs => hs.farewell hG hf

/-- A `deleted` event is appended by the deletion of its conversation. -/
theorem Performs.deleted_mem (h : Performs G db db') (he : e ∈ db'.conversationEvents)
    (hdeleted : e.type = .deleted) (hG : ¬G.purge e.conversationId) :
    e ∈ db.conversationEvents := by
  refine Classical.byContradiction fun hnot => ?_
  refine h.invariant (I := fun db => e ∉ db.conversationEvents) hnot
    (fun db₁ db₂ hnot hs he => ?_) he
  cases hs.events_change with
  | same events deliveries counters => exact hnot (events ▸ he)
  | append e' c drawn found sequence id granted insert insertDelivery counters =>
      rcases (Table.mem_insert? insert).mp he with hold | rfl
      · exact hnot hold
      · exact hG (granted hdeleted)
  | purge conversationId kept granted eq =>
      subst eq
      exact hnot (Table.mem_delete.mp he).1

/-- The `DELETE` request changes nothing, or leaves at most one event of its conversation. -/
theorem deleteConversation_closes {config : Config} {now : Time} {c : Uuid} {found : Bool}
    (h : deleteConversation config now c db = .ok (found, db')) :
    db.conversations.get? c = none ∧ db' = db ∨
      (∃ row, db.conversations.get? c = some row) ∧ db'.conversations.get? c = none ∧
        ∀ e ∈ db'.conversationEvents, ∀ e' ∈ db'.conversationEvents, e.conversationId = c →
          e'.conversationId = c → e' = e := by
  obtain ⟨_, _, hget, h⟩ := bind_eq_ok.mp h
  obtain ⟨rfl, rfl⟩ := get_eq_ok.mp hget
  cases hc : db.conversations.get? c with
  | none =>
      rw [hc] at h
      exact .inl ⟨rfl, (pure_eq_ok.mp h).2.symm⟩
  | some row =>
      rw [hc] at h
      simp only [bind_eq_ok, modify_eq_ok, pure_eq_ok] at h
      obtain ⟨event, db₁, -, _, _, rfl, _, _, rfl, rfl, rfl⟩ := h
      obtain ⟨n, tombstones, hdeleted⟩ :=
        deleteConversations_exact now [c] (deleteConversationEvents c event db₁)
      refine .inr ⟨⟨row, rfl⟩, ?_, ?_⟩
      · rw [hdeleted.eq, Table.get?_delete, Option.filter_eq_none_iff]
        intro r hr
        simp [Table.key_of_get? hr]
      · rw [hdeleted.eq]
        have hkept : ∀ e ∈ (deleteConversationEvents c event db₁).conversationEvents,
            e.conversationId = c → some e.id = event := by
          intro e he hid
          have hgone := (Table.mem_delete.mp he).2
          simpa [hid] using hgone
        intro e he e' he' hid hid'
        exact Table.key_inj he' he
          (Option.some.inj ((hkept e' he' hid').trans (hkept e he hid).symm))

end Statements

variable [DecidableEq Digest] {rt : Runtime Digest}

theorem step_deleteConversation {s s' : System Digest} {c : Uuid}
    (h : step rt s (.operator (.deleteConversation c)) = some s') :
    s'.db = s.db ∨ ∃ found, deleteConversation s.config s.now c s.db = .ok (found, s'.db) := by
  have hs' : (s.transact (deleteConversation s.config s.now c)).2 = s' := Option.some.inj h
  rcases System.transact_cases s (deleteConversation s.config s.now c) with
    ⟨found, db', hok, heq⟩ | ⟨_, heq⟩
  · rw [← hs', heq]
    exact .inr ⟨found, hok⟩
  · rw [← hs', heq]
    exact .inl rfl

theorem step_farewell {s s' : System Digest} {a : Action Digest} {e : ConversationEvent}
    (h : step rt s a = some s') (hf : s.db.Farewell e) : s'.db.Farewell e := by
  by_cases ha : a = .operator (.deleteConversation e.conversationId)
  · subst ha
    rcases step_deleteConversation h with hsame | ⟨found, hok⟩
    · exact hsame ▸ hf
    · rcases deleteConversation_closes hok with ⟨-, hsame⟩ | ⟨⟨row, hrow⟩, -, -⟩
      · exact hsame ▸ hf
      · rw [hf.absent] at hrow
        cases hrow
  · exact (step_performs h).farewell (fun hG => ha (System.purge_granted hG)) hf

theorem step_closed {s s' : System Digest} {a : Action Digest} (hs : s.db.Sound)
    (h : step rt s a = some s') (hclosed : s.db.Closed) : s'.db.Closed := by
  intro e he hdeleted
  by_cases ha : a = .operator (.deleteConversation e.conversationId)
  · subst ha
    have hle : s.db.nextId ≤ s'.db.nextId := nextId_le_performs (step_performs h)
    have hsame : s'.db = s.db → s'.db.Farewell e := fun heq => heq ▸ hclosed e (heq ▸ he) hdeleted
    rcases step_deleteConversation h with heq | ⟨found, hok⟩
    · exact hsame heq
    · rcases deleteConversation_closes hok with ⟨-, heq⟩ | ⟨⟨row, hrow⟩, habsent, honly⟩
      · exact hsame heq
      · have hlt := hs.conversationId_lt row (Table.mem_of_get? hrow)
        rw [Table.key_of_get? hrow] at hlt
        exact ⟨he, habsent, hlt.trans_le hle, fun e' he' hc => honly e he e' he' rfl hc⟩
  · have hG : ¬(s.grant rt a).purge e.conversationId := fun hG => ha (System.purge_granted hG)
    have hold := (step_performs h).deleted_mem he hdeleted hG
    exact (step_performs h).farewell hG (hclosed e hold hdeleted)

/-! ### Runs -/

namespace EventedSystem

variable {s s' : EventedSystem Digest} {a : EventedAction Digest}

/-- A `deleted` event is published only when no runtime has yet to publish another event of
the conversation. -/
def PublishesLast (s : EventedSystem Digest) (a : EventedAction Digest) : Prop :=
  ∀ delivery ∈ s.publishes a, delivery.event.type = .deleted →
    ∀ d ∈ s.drains.rows, ∀ other ∈ d.2.held,
      other.event.conversationId = delivery.event.conversationId → other.event = delivery.event

instance : Decidable (PublishesLast s a) :=
  inferInstanceAs (Decidable (∀ delivery ∈ s.publishes a, _))

/-- After the `deleted` event of a conversation, no other event of it is published. -/
def DeletedLast (s : EventedSystem Digest) : Prop :=
  ∀ before p after, s.published = before ++ p :: after → p.delivery.event.type = .deleted →
    ∀ q ∈ after, q.delivery.event.conversationId = p.delivery.event.conversationId →
      q.delivery.event = p.delivery.event

structure Parted (s : EventedSystem Digest) : Prop where
  closed : s.service.db.Closed
  held : ∀ runtime delivery, s.Holds runtime delivery → delivery.event.type = .deleted →
    s.service.db.Farewell delivery.event
  published : ∀ p ∈ s.published, p.delivery.event.type = .deleted →
    s.service.db.Farewell p.delivery.event ∧ ∀ runtime delivery, s.Holds runtime delivery →
      delivery.event.conversationId = p.delivery.event.conversationId →
        delivery.event = p.delivery.event
  last : s.DeletedLast

omit [DecidableEq Digest] in
theorem parted_initial (config : Config) (now : Time) :
    (initial config now : EventedSystem Digest).Parted where
  closed e he := by cases he
  held := by
    rintro runtime delivery ⟨drain, hd, -⟩
    cases hd
  published p hp := by cases hp
  last before p after h := by
    have hlength := congrArg List.length h
    simp [initial] at hlength

theorem Parted.serve (h : s.Parted) {b : Action Digest} {service : System Digest}
    (hs : s.service.db.Sound) (hstep : ResendConversation.step rt s.service b = some service) :
    (s.serve service).Parted where
  closed := step_closed hs hstep h.closed
  held runtime delivery hholds hdeleted :=
    step_farewell hstep (h.held runtime delivery hholds hdeleted)
  published p hp hdeleted :=
    ⟨step_farewell hstep (h.published p hp hdeleted).1, (h.published p hp hdeleted).2⟩
  last := h.last

omit [DecidableEq Digest] in
theorem Parted.change (h : s.Parted) (ha : s.PublishesLast a) (hchange : s.RuntimeChange a s') :
    s'.Parted := by
  have hservice := hchange.service
  -- what is held afterwards was held before or is stored
  have hheld : ∀ runtime delivery, s'.Holds runtime delivery →
      s.Holds runtime delivery ∨ delivery.event ∈ s.service.db.conversationEvents := by
    intro runtime delivery hholds
    refine (hchange.held runtime delivery hholds).imp id ?_
    rintro ⟨_, _, -, d, -, he⟩
    exact Table.mem_of_get? he
  have hold : ∀ p ∈ s.published, p.delivery.event.type = .deleted →
      ∀ runtime delivery, s'.Holds runtime delivery →
      delivery.event.conversationId = p.delivery.event.conversationId →
        delivery.event = p.delivery.event := by
    intro p hp hdeleted runtime delivery hholds hc
    obtain ⟨hf, hothers⟩ := h.published p hp hdeleted
    rcases hheld runtime delivery hholds with hholds | hstored
    · exact hothers runtime delivery hholds hc
    · exact hf.only _ hstored hc
  refine ⟨?_, fun runtime delivery hholds hdeleted => ?_, fun p hp hdeleted => ?_, ?_⟩
  · rw [hservice]
    exact h.closed
  · rw [hservice]
    rcases hheld runtime delivery hholds with hholds | hstored
    · exact h.held runtime delivery hholds hdeleted
    · exact h.closed _ hstored hdeleted
  · rw [hservice]
    rcases hchange.published with heq | ⟨runtime, delivery, hpublishes, hholds, heq⟩
    · rw [heq] at hp
      exact ⟨(h.published p hp hdeleted).1, hold p hp hdeleted⟩
    · rw [heq] at hp
      rcases List.mem_append.mp hp with hp | hp
      · exact ⟨(h.published p hp hdeleted).1, hold p hp hdeleted⟩
      · obtain rfl := List.mem_singleton.mp hp
        have hf := h.held runtime delivery hholds hdeleted
        refine ⟨hf, fun runtime' other hother hc => ?_⟩
        rcases hheld runtime' other hother with ⟨drain, hd, hin⟩ | hstored
        · exact ha delivery hpublishes hdeleted _ hd other hin hc
        · exact hf.only _ hstored hc
  · rcases hchange.published with heq | ⟨runtime, delivery, hpublishes, hholds, heq⟩
    · unfold DeletedLast
      rw [heq]
      exact h.last
    · intro before p after hsplit hdeleted q hq hc
      rw [heq] at hsplit
      rcases List.eq_nil_or_concat after with rfl | ⟨after, last, rfl⟩
      · cases hq
      · rw [List.concat_eq_append] at hsplit hq
        rw [← List.cons_append, ← List.append_assoc] at hsplit
        obtain ⟨hinit, hlast⟩ := List.append_inj' hsplit rfl
        rcases List.mem_append.mp hq with hq | hq
        · exact h.last before p after hinit hdeleted q hq hc
        · obtain rfl := List.mem_singleton.mp hq
          cases hlast
          have hp : p ∈ s.published := by
            rw [hinit]
            exact List.mem_append_right _ List.mem_cons_self
          exact (h.published p hp hdeleted).2 runtime delivery hholds hc

theorem Parted.step (h : s.Parted) (hs : s.service.db.Sound) (ha : s.PublishesLast a)
    (hstep : EventedSystem.step rt s a = some s') : s'.Parted := by
  rcases step_cases hstep with ⟨b, service, rfl, hservice, rfl⟩ | ⟨-, hchange⟩
  · exact h.serve hs hservice
  · exact h.change ha hchange

/-- The service goes through states of its own. -/
theorem reachable_service (h : Reachable rt s.service)
    (hstep : EventedSystem.step rt s a = some s') :
    Reachable rt s'.service := by
  rcases step_cases hstep with ⟨b, service, rfl, hservice, rfl⟩ | ⟨-, hchange⟩
  · obtain ⟨config, now, hrun⟩ := h
    exact ⟨config, now, hrun.tail trivial hservice⟩
  · rw [hchange.service]
    exact h

end EventedSystem

/-- The `deleted` event is the last one published of its conversation, in every run that
publishes it only when no other event of the conversation is held. -/
theorem EventedReachable.deleted_last {s : EventedSystem Digest}
    (h : EventedReachable rt EventedSystem.PublishesLast s) : s.DeletedLast := by
  obtain ⟨config, now, hrun⟩ := h
  have hparted : Reachable rt s.service ∧ s.Parted :=
    hrun.invariant (I := fun t => Reachable rt t.service ∧ t.Parted)
      ⟨⟨config, now, .refl _⟩, EventedSystem.parted_initial config now⟩ fun t a t' ht ha hstep =>
        ⟨EventedSystem.reachable_service ht.1 hstep, ht.2.step ht.1.threaded.sound ha hstep⟩
  exact hparted.2.last

/-- The `deleted` event is published twice, while nothing else is held. -/
theorem deleted_last_reference : ∃ s : EventedSystem SendRequest,
    EventedReachable .reference EventedSystem.PublishesLast s ∧
    s.published.map (fun p => (p.runtime, p.delivery.event.type)) = [(1, .deleted), (2, .deleted)] ∧
    s.DeletedLast := by
  obtain ⟨s, hrun, hs⟩ : ∃ s, Run (EventedSystem.step .reference) EventedSystem.PublishesLast
      .reference s ∧
      s.published.map (fun p => (p.runtime, p.delivery.event.type)) =
        [(1, .deleted), (2, .deleted)] :=
    Run.exists_of_exec
      (Reference.opened ++ [.service (.operator (.deleteConversation 0)), .claim 1 none [],
      .publish 1 true none, .service (.tick 30000), .claim 2 none [], .publish 2 true none])
        (by decide +kernel)
  exact ⟨s, .of_run hrun, hs, (EventedReachable.of_run hrun).deleted_last⟩

/-- A runtime claims the first event of a conversation, which is then deleted; another runtime
publishes the `deleted` event, and after that the first one publishes its event. -/
def Reference.overtaken : List (EventedAction SendRequest) :=
  [.claim 1 none [], .service (.operator (.deleteConversation 0)), .claim 2 none [],
    .publish 2 true none, .publish 1 true none]

theorem deleted_not_last : ∃ s : EventedSystem SendRequest,
    EventedReachable .reference Always s ∧ ¬s.DeletedLast := by
  obtain ⟨s, hrun, p, hp, q, hq, heq, hdeleted, hc, hne⟩ :
      ∃ s, Run (EventedSystem.step .reference) Always .reference s ∧
        ∃ p ∈ s.published, ∃ q ∈ s.published, s.published = [p, q] ∧
          p.delivery.event.type = .deleted ∧
          q.delivery.event.conversationId = p.delivery.event.conversationId ∧
            q.delivery.event ≠ p.delivery.event :=
    Run.exists_of_exec (Reference.opened ++ Reference.overtaken) (by decide +kernel)
  exact ⟨s, .of_run hrun, fun hlast => hne (hlast [] p [q] heq hdeleted q List.mem_cons_self hc)⟩

end ResendConversation
