import ResendConversation.EventNumbers
import ResendConversation.PublisherSteps

/-! # The order of publications

While the operator deletes no conversation, the events of a conversation reach the broker in
the order of their numbers, whatever the runtimes do with their leases.  A runtime holds an
event only when all earlier events of the conversation are marked as published
(`EventedSystem.Due`), a mark that is never taken back and that is only set by a runtime that
has published the event. -/

namespace ResendConversation

open Foundation

variable {Digest : Type}

/-! ### The service -/

/-- The event log only grows, at the ends of the conversations. -/
structure Database.Extends (db db' : Database Digest) : Prop where
  events : ∀ e ∈ db.conversationEvents, e ∈ db'.conversationEvents
  deliveries : ∀ id, (db.conversationEventDeliveries.get? id).isSome →
    (db'.conversationEventDeliveries.get? id).isSome
  later : ∀ e ∈ db'.conversationEvents, e ∈ db.conversationEvents ∨
    ∀ e₀ ∈ db.conversationEvents, e₀.conversationId = e.conversationId → e₀.sequence < e.sequence

instance : Std.Refl (@Database.Extends Digest) where
  refl _ := ⟨fun _ h => h, fun _ h => h, fun _ h => .inl h⟩

instance : IsTrans (Database Digest) Database.Extends where
  trans db₁ db₂ db₃ h h' := by
    refine ⟨fun e he => h'.events e (h.events e he),
      fun id hid => h'.deliveries id (h.deliveries id hid), fun e he => ?_⟩
    rcases h'.later e he with hold | hlast
    · exact h.later e hold
    · exact .inr fun e₀ he₀ hc => hlast e₀ (h.events e₀ he₀) hc

theorem Statement.extends {G : Grant Digest} {db db' : Database Digest} (h : Statement G db db')
    (hG : ∀ c, ¬G.purge c) (hn : db.Numbered) : db.Extends db' := by
  cases h.events_change with
  | same events deliveries counters =>
      refine ⟨?_, ?_, ?_⟩
      · rw [events]
        exact fun _ he => he
      · rw [deliveries]
        exact fun _ hid => hid
      · rw [events]
        exact fun _ he => .inl he
  | append e c drawn found sequence id granted insert insertDelivery counters =>
      refine ⟨fun e₀ he₀ => (Table.mem_insert? insert).mpr (.inl he₀), fun k hk => ?_,
        fun e' he' => ?_⟩
      · rw [Table.get?_of_insert? insertDelivery]
        split
        · rfl
        · exact hk
      · rcases (Table.mem_insert? insert).mp he' with hold | rfl
        · exact .inl hold
        · refine .inr fun e₀ he₀ hc => ?_
          obtain ⟨n, hto, hrow⟩ := hn.numbered e'.conversationId
          have hle := (hto.1 e₀ he₀ hc).2
          have hcount := hrow c (Table.mem_of_get? found) (Table.key_of_get? found)
          omega
  | purge conversationId kept granted eq => exact absurd granted (hG conversationId)

/-! ### The invariant -/

/-- The conversation that the operator deletes. -/
def EventedAction.deletes : EventedAction Digest → Option Uuid
  | .service (.operator (.deleteConversation id)) => some id
  | _ => none

/-- The operator deletes no conversation. -/
def NoDeletion (_ : EventedSystem Digest) (a : EventedAction Digest) : Prop := a.deletes = none

instance (s : EventedSystem Digest) (a : EventedAction Digest) : Decidable (NoDeletion s a) :=
  inferInstanceAs (Decidable (a.deletes = none))

namespace EventedSystem

variable {s s' : EventedSystem Digest} {a : EventedAction Digest}

/-- All earlier events of the conversation are marked as published. -/
def Due (s : EventedSystem Digest) (e : ConversationEvent) : Prop :=
  e ∈ s.service.db.conversationEvents ∧
    ∀ e₀ ∈ s.service.db.conversationEvents, e₀.conversationId = e.conversationId →
      e₀.sequence < e.sequence → s.Acknowledged e₀.id

/-- Every stored event that comes before a published one in its conversation was published
before. -/
def InOrder (s : EventedSystem Digest) : Prop :=
  ∀ before p after, s.published = before ++ p :: after →
    ∀ e ∈ s.service.db.conversationEvents, e.conversationId = p.delivery.event.conversationId →
      e.sequence < p.delivery.event.sequence → ∃ q ∈ before, q.delivery.event = e

structure Sequenced (s : EventedSystem Digest) : Prop where
  numbered : s.service.db.Numbered
  keys : ∀ id, (s.deliveries.get? id).isSome =
    (s.service.db.conversationEventDeliveries.get? id).isSome
  acknowledged : ∀ id, s.Acknowledged id → ∃ p ∈ s.published, p.delivery.event.id = id
  held : ∀ runtime delivery, s.Holds runtime delivery → s.Due delivery.event
  acknowledging : ∀ runtime delivery rest, (runtime, .acknowledging delivery rest) ∈ s.drains →
    ⟨runtime, delivery⟩ ∈ s.published
  stored : ∀ p ∈ s.published, p.delivery.event ∈ s.service.db.conversationEvents
  inOrder : s.InOrder

theorem sequenced_initial (config : Config) (now : Time) :
    (initial config now : EventedSystem Digest).Sequenced where
  numbered := numbered_initial
  keys _ := rfl
  acknowledged := by
    rintro id ⟨d, hd, -⟩
    cases hd
  held := by
    rintro runtime delivery ⟨drain, hd, -⟩
    cases hd
  acknowledging _ _ _ hd := by cases hd
  stored p hp := by cases hp
  inOrder before p after h := by
    have hlength := congrArg List.length h
    simp [initial] at hlength

theorem Due.mono {e : ConversationEvent} (h : s.Due e) (hext : s.service.db.Extends s'.service.db)
    (hack : ∀ id, s.Acknowledged id → s'.Acknowledged id) : s'.Due e := by
  refine ⟨hext.events e h.1, fun e₀ he₀ hc hlt => ?_⟩
  rcases hext.later e₀ he₀ with hold | hlast
  · exact hack e₀.id (h.2 e₀ hold hc hlt)
  · have := hlast e h.1 hc.symm
    omega

/-! ### Steps of the service -/

theorem acknowledged_serve {service : System Digest} (h : s.Sequenced)
    (hext : s.service.db.Extends service.db) (id : Uuid) :
    (s.serve service).Acknowledged id ↔ s.Acknowledged id := by
  have hget : (s.serve service).deliveries.get? id = _ := get?_syncDeliveries _ _ s.deliveries id
  have hkeys := h.keys id
  constructor
  · rintro ⟨d, hd, hpublished⟩
    rw [hget] at hd
    obtain ⟨row, -, rfl⟩ := Option.map_eq_some_iff.mp hd
    cases hold : s.deliveries.get? id with
    | none =>
        rw [hold] at hpublished
        cases hpublished
    | some d =>
        rw [hold] at hpublished
        exact ⟨d, hold, hpublished⟩
  · rintro ⟨d, hd, hpublished⟩
    refine ⟨d, ?_, hpublished⟩
    rw [hd] at hkeys hget
    obtain ⟨row, hrow⟩ := Option.isSome_iff_exists.mp (hext.deliveries id hkeys.symm)
    rw [hget, hrow]
    rfl

theorem Sequenced.serve {service : System Digest} (h : s.Sequenced) (hn : service.db.Numbered)
    (hext : s.service.db.Extends service.db) : (s.serve service).Sequenced where
  numbered := hn
  keys id := by
    have hget : (s.serve service).deliveries.get? id = _ := get?_syncDeliveries _ _ s.deliveries id
    rw [hget, Option.isSome_map]
    rfl
  acknowledged id hid := h.acknowledged id ((acknowledged_serve h hext id).mp hid)
  held runtime delivery hholds :=
    (h.held runtime delivery hholds).mono hext fun id hid => (acknowledged_serve h hext id).mpr hid
  acknowledging := h.acknowledging
  stored p hp := hext.events _ (h.stored p hp)
  inOrder before p after heq e he hc hlt := by
    rcases hext.later e he with hold | hlast
    · exact h.inOrder before p after heq e hold hc hlt
    · have hp : p ∈ s.published := by
        rw [show s.published = before ++ p :: after from heq]
        exact List.mem_append_right _ List.mem_cons_self
      have := hlast p.delivery.event (h.stored p hp) hc.symm
      omega

/-! ### Steps of the runtimes -/

/-- What a drain claims is due. -/
theorem Sequenced.due_of_claims (h : s.Sequenced) {runtime : ℕ} {delivery : ClaimedDelivery}
    (hclaims : s.Claims a runtime delivery) : s.Due delivery.event := by
  obtain ⟨readAt, locked, -, d, hd, he⟩ := hclaims
  have hselected := (Table.mem_selectSorted.mp (List.mem_of_mem_take hd)).2
  simp only [he, Option.any_some, Bool.and_eq_true, Bool.not_eq_true', blocked, List.any_eq_false]
    at hselected
  obtain ⟨⟨-, hblocked⟩, -⟩ := hselected
  refine ⟨Table.mem_of_get? he, fun e₀ he₀ hc hlt => ?_⟩
  have hnot := hblocked e₀ he₀
  obtain ⟨row, hrow⟩ :=
    Option.isSome_iff_exists.mp ((h.keys e₀.id).trans (h.numbered.delivered e₀ he₀))
  refine ⟨row, hrow, ?_⟩
  cases hmark : row.publishedAt with
  | some at_ => rfl
  | none => exact absurd (by simp [hc, hlt, hrow, hmark]) hnot

/-- A published event that is due has all earlier events of its conversation before it. -/
theorem Sequenced.inOrder_append (h : s.Sequenced) {p : Publication} (hdue : s.Due p.delivery.event)
    (hservice : s'.service = s.service) (hpublished : s'.published = s.published ++ [p]) :
    s'.InOrder := by
  intro before q after heq e he hc hlt
  rw [hpublished] at heq
  rw [hservice] at he
  rcases List.eq_nil_or_concat after with rfl | ⟨after, last, rfl⟩
  · obtain ⟨rfl, hq⟩ := List.append_inj' heq rfl
    cases hq
    obtain ⟨q, hq, hid⟩ := h.acknowledged e.id (hdue.2 e he hc hlt)
    exact ⟨q, hq, Table.key_inj (h.stored q hq) he hid⟩
  · rw [List.concat_eq_append, ← List.cons_append, ← List.append_assoc] at heq
    exact h.inOrder before q after (List.append_inj' heq rfl).1 e he hc hlt

theorem Sequenced.change (h : s.Sequenced) (hchange : s.RuntimeChange a s') : s'.Sequenced := by
  have hservice := hchange.service
  have hpublished : ∀ p ∈ s.published, p ∈ s'.published := by
    intro p hp
    rcases hchange.published with heq | ⟨_, _, -, -, heq⟩
    · exact heq ▸ hp
    · exact heq ▸ List.mem_append_left _ hp
  refine ⟨?_, fun id => ?_, fun id hid => ?_, fun runtime delivery hholds => ?_,
    fun runtime delivery rest hd => ?_, fun p hp => ?_, ?_⟩
  · rw [hservice]
    exact h.numbered
  · rw [hchange.keys, hservice]
    exact h.keys id
  · have hmarked : ∃ p ∈ s.published, p.delivery.event.id = id := by
      rcases hchange.marked id hid with hold | ⟨runtime, error, delivery, rest, -, hd, hevent⟩
      · exact h.acknowledged id hold
      · exact ⟨_, h.acknowledging runtime delivery rest hd, hevent⟩
    obtain ⟨p, hp, hevent⟩ := hmarked
    exact ⟨p, hpublished p hp, hevent⟩
  · have hdue : s.Due delivery.event :=
      (hchange.held runtime delivery hholds).elim (h.held runtime delivery) h.due_of_claims
    exact hdue.mono (by rw [hservice]; exact Std.Refl.refl _) hchange.kept
  · rcases hchange.acknowledging runtime delivery rest hd with hold | heq
    · exact hpublished _ (h.acknowledging runtime delivery rest hold)
    · rw [heq]
      exact List.mem_append_right _ List.mem_cons_self
  · rw [hservice]
    rcases hchange.published with heq | ⟨runtime, delivery, -, hholds, heq⟩
    · exact h.stored p (heq ▸ hp)
    · rw [heq] at hp
      rcases List.mem_append.mp hp with hold | hnew
      · exact h.stored p hold
      · obtain rfl := List.mem_singleton.mp hnew
        exact (h.held runtime delivery hholds).1
  · rcases hchange.published with heq | ⟨runtime, delivery, -, hholds, heq⟩
    · unfold InOrder
      rw [heq, hservice]
      exact h.inOrder
    · exact h.inOrder_append (h.held runtime delivery hholds) hservice heq

/-! ### Runs -/

/-- The event has a delivery that is not marked as published. -/
def Waiting (s : EventedSystem Digest) (id : Uuid) : Prop :=
  ∃ d, s.deliveries.get? id = some d ∧ d.publishedAt = none

theorem Sequenced.waiting_iff (h : s.Sequenced) {e : ConversationEvent}
    (he : e ∈ s.service.db.conversationEvents) : s.Waiting e.id ↔ ¬s.Acknowledged e.id := by
  obtain ⟨d, hd⟩ := Option.isSome_iff_exists.mp ((h.keys e.id).trans (h.numbered.delivered e he))
  unfold Waiting Acknowledged
  rw [hd]
  cases hmark : d.publishedAt <;> simp [hmark]

/-- The events stay, and one that waits goes on waiting until a runtime that has published it
acknowledges it. -/
structure Retains (s : EventedSystem Digest) (a : EventedAction Digest)
    (s' : EventedSystem Digest) :
    Prop where
  events : ∀ e ∈ s.service.db.conversationEvents, e ∈ s'.service.db.conversationEvents
  waiting : ∀ e ∈ s.service.db.conversationEvents, s.Waiting e.id → s'.Waiting e.id ∨
    ∃ runtime error delivery, a = .acknowledge runtime true error ∧ delivery.event = e ∧
      ⟨runtime, delivery⟩ ∈ s.published

variable [DecidableEq Digest] {rt : Runtime Digest}

/-- Only the deletion of a conversation removes events. -/
theorem step_extends {service service' : System Digest} {b : Action Digest}
    (hn : service.db.Numbered) (hb : NoDeletion s (.service b))
    (h : ResendConversation.step rt service b = some service') :
    service'.db.Numbered ∧ service.db.Extends service'.db := by
  have hG : ∀ c, ¬(service.grant rt b).purge c := by
    intro c hc
    obtain rfl := System.purge_granted hc
    cases hb
  exact (step_performs h).relates hn fun _ _ hn hs => ⟨hs.numbered hG hn, hs.extends hG hn⟩

theorem Sequenced.step (h : s.Sequenced) (ha : NoDeletion s a)
    (hstep : EventedSystem.step rt s a = some s') : s'.Sequenced ∧ s.Retains a s' := by
  rcases step_cases hstep with ⟨b, service, rfl, hservice, rfl⟩ | ⟨-, hchange⟩
  · obtain ⟨hn, hext⟩ := step_extends h.numbered ha hservice
    have h' := h.serve hn hext
    refine ⟨h', hext.events, fun e he hwaiting => .inl ?_⟩
    rw [h'.waiting_iff (hext.events e he), acknowledged_serve h hext]
    exact (h.waiting_iff he).mp hwaiting
  · have h' := h.change hchange
    have hevents : ∀ e ∈ s.service.db.conversationEvents, e ∈ s'.service.db.conversationEvents := by
      rw [hchange.service]
      exact fun _ he => he
    refine ⟨h', hevents, fun e he hwaiting => ?_⟩
    by_cases hack : s'.Acknowledged e.id
    · rcases hchange.marked e.id hack with hold | ⟨runtime, error, delivery, rest, rfl, hd, hevent⟩
      · exact absurd hold ((h.waiting_iff he).mp hwaiting)
      · have hpublished := h.acknowledging runtime delivery rest hd
        exact .inr ⟨runtime, error, delivery, rfl, Table.key_inj (h.stored _ hpublished) he hevent,
          hpublished⟩
    · exact .inl ((h'.waiting_iff (hevents e he)).mpr hack)

end EventedSystem

variable [DecidableEq Digest] {rt : Runtime Digest}

theorem EventedReachable.sequenced {s : EventedSystem Digest}
    (h : EventedReachable rt NoDeletion s) :
    s.Sequenced := by
  obtain ⟨config, now, hrun⟩ := h
  exact hrun.invariant (EventedSystem.sequenced_initial config now) fun t a t' ht ha hstep =>
    (ht.step ha hstep).1

/-- The events of a conversation are numbered from 1 without a gap.  What is published is
stored; it stays, and waits for the acknowledgement of a runtime that has published it; and
the first publication of an event comes before those of the next one. -/
theorem EventedReachable.first_published_in_order {s : EventedSystem Digest}
    (h : EventedReachable rt NoDeletion s) :
    (∀ c, ∃ n, s.service.db.NumberedTo c n) ∧
    (∀ e ∈ s.service.db.conversationEvents, ∀ e' ∈ s.service.db.conversationEvents,
      e.conversationId = e'.conversationId → e.sequence = e'.sequence → e = e') ∧
    (∀ p ∈ s.published, p.delivery.event ∈ s.service.db.conversationEvents) ∧
    (∀ e ∈ s.service.db.conversationEvents, s.Waiting e.id ∨
      ∃ p ∈ s.published, p.delivery.event = e) ∧
    (∀ a s', NoDeletion s a → EventedSystem.step rt s a = some s' → s.Retains a s') ∧
    ∀ before p after n, s.published = before ++ p :: after → 1 ≤ n →
      p.delivery.event.sequence = n + 1 →
      ∃ q ∈ before, q.delivery.event.conversationId = p.delivery.event.conversationId ∧
        q.delivery.event.sequence = n := by
  have hs := h.sequenced
  refine ⟨fun c => (hs.numbered.numbered c).imp fun n hn => hn.1, hs.numbered.distinct, hs.stored,
    fun e he => ?_, fun a s' ha hstep =>
      (hs.step ha hstep).2, fun before p after n heq hn hsequence => ?_⟩
  · by_cases hack : s.Acknowledged e.id
    · obtain ⟨p, hp, hid⟩ := hs.acknowledged e.id hack
      exact .inr ⟨p, hp, Table.key_inj (hs.stored p hp) he hid⟩
    · exact .inl ((hs.waiting_iff he).mpr hack)
  · have hp : p ∈ s.published := by
      rw [heq]
      exact List.mem_append_right _ List.mem_cons_self
    obtain ⟨m, hto, -⟩ := hs.numbered.numbered p.delivery.event.conversationId
    have hle := (hto.1 _ (hs.stored p hp) rfl).2
    obtain ⟨e, he, hc, rfl⟩ := hto.2 n hn (by omega)
    obtain ⟨q, hq, rfl⟩ := hs.inOrder before p after heq e he hc (by omega)
    exact ⟨q, hq, hc, rfl⟩

/-! ### A concrete run -/

/-- The service of the concrete runs with events, and no runtime. -/
def EventedSystem.reference : EventedSystem SendRequest :=
  .initial { Config.reference with conversationEventsEnabled := true } 0

theorem EventedReachable.of_run {ok : EventedSystem SendRequest → EventedAction SendRequest → Prop}
    {s : EventedSystem SendRequest} (h : Run (EventedSystem.step .reference) ok .reference s) :
    EventedReachable .reference ok s :=
  ⟨_, 0, h⟩

/-- A conversation is opened, which appends two events. -/
def Reference.opened : List (EventedAction SendRequest) :=
  (grants ++ submit 0 (opening true (js "x")) (js "k")).map .service

/-- Two runtimes publish the first event, one of them under a lease that has run out, and one
of them publishes the second event. -/
def Reference.overlapping : List (EventedAction SendRequest) :=
  [.claim 1 none [], .service (.tick 30000), .claim 2 none [], .publish 2 true none,
    .publish 1 true none,
    .acknowledge 1 true none, .acknowledge 2 true none, .claim 1 none [], .publish 1 true none]

theorem first_published_in_order_reference : ∃ s : EventedSystem SendRequest, ∃ p,
    EventedReachable .reference NoDeletion s ∧ s.published = s.published.take 2 ++ [p] ∧
    p.delivery.event.sequence = 2 ∧ ∃ q ∈ s.published.take 2,
      q.delivery.event.conversationId = p.delivery.event.conversationId ∧
        q.delivery.event.sequence = 1 := by
  obtain ⟨s, hrun, hs⟩ : ∃ s, Run (EventedSystem.step .reference) NoDeletion .reference s ∧
      ∃ p ∈ s.published, s.published = s.published.take 2 ++ [p] ∧ p.delivery.event.sequence = 2 :=
    Run.exists_of_exec (Reference.opened ++ Reference.overlapping) (by decide +kernel)
  obtain ⟨p, -, heq, hsequence⟩ := hs
  have hreachable := EventedReachable.of_run hrun
  have hbefore := hreachable.first_published_in_order.2.2.2.2.2 _ p [] 1 heq le_rfl hsequence
  exact ⟨s, p, hreachable, heq, hsequence, hbefore⟩

end ResendConversation
