import ResendConversation.Publishers

/-! # Steps of the event runtimes

What one step of a runtime does (`RuntimeChange`): the service stands still; a delivery is
held by the runtime that claimed it, until the runtime has tried to publish it; a publication
is of a delivery that the runtime holds; and a mark as published is only set by the
acknowledgement of a runtime whose publication succeeded. -/

namespace ResendConversation

open Foundation

variable {Digest : Type}

/-- The deliveries that a drain has yet to publish. -/
def EventDrain.held : EventDrain → List ClaimedDelivery
  | .publishing delivery rest => delivery :: rest
  | .acknowledging _ rest => rest
  | .retrying _ rest _ => rest

namespace EventedSystem

variable {s s' : EventedSystem Digest} {runtime : ℕ}

/-- The event is marked as published. -/
def Acknowledged (s : EventedSystem Digest) (id : Uuid) : Prop :=
  ∃ d, s.deliveries.get? id = some d ∧ d.publishedAt.isSome

/-- The runtime has yet to publish the delivery. -/
def Holds (s : EventedSystem Digest) (runtime : ℕ) (delivery : ClaimedDelivery) : Prop :=
  ∃ drain, (runtime, drain) ∈ s.drains ∧ delivery ∈ drain.held

/-- What a step publishes. -/
def publishes (s : EventedSystem Digest) : EventedAction Digest → Option ClaimedDelivery
  | .publish runtime true _ =>
      match s.drains.get? runtime with
      | some (_, .publishing delivery _) => some delivery
      | _ => none
  | _ => none

/-- The runtime has claimed the delivery in this step. -/
def Claims (s : EventedSystem Digest) (a : EventedAction Digest) (runtime : ℕ)
    (delivery : ClaimedDelivery) : Prop :=
  ∃ readAt locked, a = .claim runtime readAt locked ∧
    ∃ d ∈ claimable s.service.db s.deliveries (s.service.clock readAt) locked,
      s.service.db.conversationEvents.get? d.eventId = some delivery.event

structure RuntimeChange (s : EventedSystem Digest) (a : EventedAction Digest)
    (s' : EventedSystem Digest) :
    Prop where
  service : s'.service = s.service
  keys : ∀ id, (s'.deliveries.get? id).isSome = (s.deliveries.get? id).isSome
  kept : ∀ id, s.Acknowledged id → s'.Acknowledged id
  marked : ∀ id, s'.Acknowledged id → s.Acknowledged id ∨
    ∃ runtime error delivery rest, a = .acknowledge runtime true error ∧
      (runtime, .acknowledging delivery rest) ∈ s.drains ∧ delivery.event.id = id
  held : ∀ runtime delivery, s'.Holds runtime delivery → s.Holds runtime delivery ∨
    s.Claims a runtime delivery
  acknowledging : ∀ runtime delivery rest, (runtime, .acknowledging delivery rest) ∈ s'.drains →
    (runtime, .acknowledging delivery rest) ∈ s.drains ∨
      s'.published = s.published ++ [⟨runtime, delivery⟩]
  published : s'.published = s.published ∨ ∃ runtime delivery, s.publishes a = some delivery ∧
    s.Holds runtime delivery ∧ s'.published = s.published ++ [⟨runtime, delivery⟩]

/-! ### Marks -/

/-- An update of delivery rows that leaves the marks alone. -/
theorem acknowledged_update {p : DeliveryColumns → Bool} {f : DeliveryColumns → DeliveryColumns}
    (h : ∃ keep, s'.deliveries = s.deliveries.update p f keep)
    (hf : ∀ d, (f d).publishedAt = d.publishedAt) (id : Uuid) :
    s'.Acknowledged id ↔ s.Acknowledged id := by
  obtain ⟨keep, h⟩ := h
  have hmark : ∀ d, (if p d then f d else d).publishedAt = d.publishedAt := by
    intro d
    split
    · exact hf d
    · rfl
  unfold Acknowledged
  rw [h, Table.get?_update]
  constructor
  · rintro ⟨d', hd', hpublished⟩
    obtain ⟨d, hd, rfl⟩ := Option.map_eq_some_iff.mp hd'
    exact ⟨d, hd, hmark d ▸ hpublished⟩
  · rintro ⟨d, hd, hpublished⟩
    exact ⟨_, Option.map_eq_some_iff.mpr ⟨d, hd, rfl⟩, (hmark d).symm ▸ hpublished⟩

/-- The marks after an acknowledgement. -/
theorem acknowledged_acknowledgeDelivery {now : Time} {delivery : ClaimedDelivery}
    (h : s'.deliveries = acknowledgeDelivery now delivery s.deliveries) (id : Uuid) :
    (s.Acknowledged id → s'.Acknowledged id) ∧
      (s'.Acknowledged id → s.Acknowledged id ∨ delivery.event.id = id) := by
  unfold Acknowledged
  rw [h, acknowledgeDelivery, Table.get?_update]
  constructor
  · rintro ⟨d, hd, hpublished⟩
    refine ⟨_, Option.map_eq_some_iff.mpr ⟨d, hd, rfl⟩, ?_⟩
    split
    · rfl
    · exact hpublished
  · rintro ⟨d', hd', hpublished⟩
    obtain ⟨d, hd, rfl⟩ := Option.map_eq_some_iff.mp hd'
    split at hpublished
    next howns =>
      have hid : d.eventId = delivery.event.id := by
        unfold ClaimedDelivery.owns at howns
        simp only [Bool.and_eq_true, beq_iff_eq] at howns
        exact howns.1
      exact .inr (hid.symm.trans (Table.key_of_get? hd))
    next => exact .inl ⟨d, hd, hpublished⟩

/-! ### Drains -/

theorem mem_drains_proceed {held : List ClaimedDelivery} {d : ℕ × EventDrain}
    (h : d ∈ (s.proceed runtime held).drains) : d ∈ s.drains ∨
      ∃ delivery rest, held = delivery :: rest ∧ d = (runtime, .publishing delivery rest) := by
  cases held with
  | nil => exact .inl (Table.mem_delete.mp h).1
  | cons delivery rest =>
      rcases Table.mem_set.mp h with rfl | ⟨hold, -⟩
      · exact .inr ⟨delivery, rest, rfl, rfl⟩
      · exact .inl hold

theorem holds_proceed {held : List ClaimedDelivery} {r : ℕ} {delivery : ClaimedDelivery}
    (h : (s.proceed runtime held).Holds r delivery) :
    s.Holds r delivery ∨ r = runtime ∧ delivery ∈ held := by
  obtain ⟨drain, hd, hmem⟩ := h
  rcases mem_drains_proceed hd with hold | ⟨first, rest, rfl, hpair⟩
  · exact .inl ⟨drain, hold, hmem⟩
  · obtain ⟨rfl, rfl⟩ := Prod.mk.injEq _ _ _ _ ▸ hpair
    exact .inr ⟨rfl, hmem⟩

theorem acknowledging_proceed {held : List ClaimedDelivery} {r : ℕ} {delivery : ClaimedDelivery}
    {rest : List ClaimedDelivery}
    (h : (r, .acknowledging delivery rest) ∈ (s.proceed runtime held).drains) :
    (r, .acknowledging delivery rest) ∈ s.drains := by
  rcases mem_drains_proceed h with hold | ⟨first, others, -, hpair⟩
  · exact hold
  · cases hpair

@[simp] theorem proceed_service (held : List ClaimedDelivery) :
    (s.proceed runtime held).service = s.service := by
  cases held <;> rfl

@[simp] theorem proceed_published (held : List ClaimedDelivery) :
    (s.proceed runtime held).published = s.published := by
  cases held <;> rfl

@[simp] theorem proceed_deliveries (held : List ClaimedDelivery) :
    (s.proceed runtime held).deliveries = s.deliveries := by
  cases held <;> rfl

/-! ### Steps -/

theorem change_claimDeliveries {readAt : Option Time} {locked : List Uuid}
    (hstep : s.claimDeliveries runtime readAt locked = some s') :
    s.RuntimeChange (.claim runtime readAt locked) s' := by
  unfold EventedSystem.claimDeliveries at hstep
  split at hstep
  · have hs' := Option.some.inj hstep
    have hrows := congrArg EventedSystem.deliveries hs'
    rw [proceed_deliveries, leaseDeliveries] at hrows
    have hmarks := acknowledged_update (s := s) ⟨by exact fun _ => rfl, hrows.symm⟩ fun _ => rfl
    refine ⟨?_, fun id => ?_, fun id => (hmarks id).mpr, fun id hid => .inl ((hmarks id).mp hid),
      fun r delivery hholds => ?_, fun r delivery rest hd => .inl ?_, .inl ?_⟩
    · rw [← hs', proceed_service]
    · rw [← hrows, Table.get?_update, Option.isSome_map]
    · rw [← hs'] at hholds
      refine (holds_proceed hholds).imp id ?_
      rintro ⟨rfl, hclaimed⟩
      obtain ⟨row, hrow, hevent⟩ := List.mem_filterMap.mp hclaimed
      obtain ⟨e, he, rfl⟩ := Option.map_eq_some_iff.mp hevent
      exact ⟨readAt, locked, rfl, row, hrow, he⟩
    · rw [← hs'] at hd
      have hold := acknowledging_proceed hd
      exact hold
    · rw [← hs', proceed_published]
  · cases hstep

theorem change_publish {reached : Bool} {error : Option JsString}
    (hstep : s.publish runtime reached error = some s') :
    s.RuntimeChange (.publish runtime reached error) s' := by
  unfold EventedSystem.publish at hstep
  split at hstep
  next key delivery rest hdrain =>
    obtain rfl : key = runtime := Table.key_of_get? hdrain
    have hmem := Table.mem_of_get? hdrain
    split at hstep
    next hseen =>
      obtain rfl := Option.some.inj hstep
      refine ⟨rfl, fun _ => rfl, fun _ hid => hid, fun _ hid => .inl hid,
        fun r delivery' hholds => .inl ?_, fun r delivery' rest' hd => ?_, ?_⟩
      · obtain ⟨drain, hd, hin⟩ := hholds
        rcases Table.mem_set.mp hd with hpair | ⟨hold, -⟩
        · obtain ⟨rfl, rfl⟩ := Prod.mk.injEq _ _ _ _ ▸ hpair
          refine ⟨_, hmem, List.mem_cons_of_mem _ ?_⟩
          cases error with
          | none => exact hin
          | some errorCode => exact hin
        · exact ⟨drain, hold, hin⟩
      · rcases Table.mem_set.mp hd with hpair | ⟨hold, -⟩
        · cases error with
          | none =>
              obtain ⟨rfl, hnext⟩ := Prod.mk.injEq _ _ _ _ ▸ hpair
              cases hnext
              exact .inr (if_pos (hseen.resolve_right (by simp)))
          | some errorCode => cases hpair
        · exact .inl hold
      · cases reached with
        | true =>
            refine .inr ⟨key, delivery, ?_, ⟨_, hmem, List.mem_cons_self⟩, rfl⟩
            simp only [publishes, hdrain]
        | false => exact .inl rfl
    next => cases hstep
  next => cases hstep

theorem change_acknowledge {commits : Bool} {error : Option JsString}
    (hstep : s.acknowledge runtime commits error = some s') :
    s.RuntimeChange (.acknowledge runtime commits error) s' := by
  unfold EventedSystem.acknowledge at hstep
  split at hstep
  next key delivery rest hdrain =>
    obtain rfl : key = runtime := Table.key_of_get? hdrain
    have hmem := Table.mem_of_get? hdrain
    split at hstep
    next =>
      -- the state whose drain is about to go on
      generalize hrows : (if commits then acknowledgeDelivery s.service.now delivery s.deliveries
        else s.deliveries) = deliveries at hstep
      have hs' : s'.service = s.service ∧ s'.published = s.published ∧ s'.deliveries = deliveries ∧
          (∀ d ∈ s'.drains, d ∈ s.drains ∨ d.1 = key ∧ (∀ delivery' ∈ d.2.held, delivery' ∈ rest) ∧
            ∀ delivery' rest', d.2 ≠ .acknowledging delivery' rest') := by
        cases error with
        | none =>
            rw [← Option.some.inj hstep, proceed_service, proceed_published, proceed_deliveries]
            refine ⟨rfl, rfl, rfl, fun d hd => (mem_drains_proceed hd).imp id ?_⟩
            rintro ⟨first, others, rfl, rfl⟩
            exact ⟨rfl, fun delivery' hin => hin, by simp⟩
        | some errorCode =>
            obtain rfl := Option.some.inj hstep
            refine ⟨rfl, rfl, rfl, fun d hd => ?_⟩
            rcases Table.mem_set.mp hd with rfl | ⟨hold, -⟩
            · exact .inr ⟨rfl, fun delivery' hin => hin, by simp⟩
            · exact .inl hold
      obtain ⟨hservice, hpublished, hdeliveries, hdrains⟩ := hs'
      refine ⟨hservice, fun id => ?_, fun id hid => ?_, fun id hid => ?_,
        fun r delivery' hholds => .inl ?_, fun r delivery' rest' hd => .inl ?_, .inl hpublished⟩
      · rw [hdeliveries, ← hrows]
        split
        · rw [acknowledgeDelivery, Table.get?_update, Option.isSome_map]
        · rfl
      · rw [← hrows] at hdeliveries
        split at hdeliveries
        · exact (acknowledged_acknowledgeDelivery hdeliveries id).1 hid
        · unfold Acknowledged
          rw [hdeliveries]
          exact hid
      · rw [← hrows] at hdeliveries
        cases commits with
        | true =>
            exact ((acknowledged_acknowledgeDelivery hdeliveries id).2 hid).imp_right fun hevent =>
              ⟨key, error, delivery, rest, rfl, hmem, hevent⟩
        | false =>
            refine .inl ?_
            unfold Acknowledged at hid
            rw [hdeliveries] at hid
            exact hid
      · obtain ⟨drain, hd, hin⟩ := hholds
        rcases hdrains _ hd with hold | ⟨rfl, hheld, -⟩
        · exact ⟨drain, hold, hin⟩
        · exact ⟨_, hmem, hheld delivery' hin⟩
      · rcases hdrains _ hd with hold | ⟨-, -, hne⟩
        · exact hold
        · exact absurd rfl (hne delivery' rest')
    next => cases hstep
  next => cases hstep

theorem change_retry {commits throws : Bool} (hstep : s.retry runtime commits throws = some s') :
    s.RuntimeChange (.retry runtime commits throws) s' := by
  unfold EventedSystem.retry at hstep
  split at hstep
  next key delivery rest errorCode hdrain =>
    obtain rfl : key = runtime := Table.key_of_get? hdrain
    have hmem := Table.mem_of_get? hdrain
    split at hstep
    next =>
      have hs' := Option.some.inj hstep
      have hrows := congrArg EventedSystem.deliveries hs'
      rw [proceed_deliveries] at hrows
      dsimp only at hrows
      have hmarks : ∀ id, s'.Acknowledged id ↔ s.Acknowledged id := by
        intro id
        split at hrows
        · rw [retryDelivery] at hrows
          exact acknowledged_update ⟨by exact fun _ => rfl, hrows.symm⟩ (fun _ => rfl) id
        · unfold Acknowledged
          rw [hrows]
      refine ⟨?_, fun id => ?_, fun id => (hmarks id).mpr, fun id hid => .inl ((hmarks id).mp hid),
        fun r delivery' hholds => .inl ?_, fun r delivery' rest' hd => .inl ?_, .inl ?_⟩
      · rw [← hs', proceed_service]
      · rw [← hrows]
        split
        · rw [retryDelivery, Table.get?_update, Option.isSome_map]
        · rfl
      · rw [← hs'] at hholds
        rcases holds_proceed hholds with hold | ⟨rfl, hin⟩
        · exact hold
        · split at hin
          · cases hin
          · exact ⟨_, hmem, hin⟩
      · rw [← hs'] at hd
        have hold := acknowledging_proceed hd
        exact hold
      · rw [← hs', proceed_published]
    next => cases hstep
  next => cases hstep

theorem change_crash : s.RuntimeChange (.crash runtime) (s.proceed runtime []) where
  service := rfl
  keys _ := rfl
  kept _ hid := hid
  marked _ hid := .inl hid
  held r delivery hholds := (holds_proceed hholds).imp id fun h => by cases h.2
  acknowledging _ _ _ hd := .inl (acknowledging_proceed hd)
  published := .inl rfl

/-- The service takes a step, and the delivery rows follow. -/
def serve (s : EventedSystem Digest) (service : System Digest) : EventedSystem Digest :=
  { s with service, deliveries := syncDeliveries service.now service.db s.deliveries }

/-- A step is one of the service or one of a runtime. -/
theorem step_cases [DecidableEq Digest] {rt : Runtime Digest} {a : EventedAction Digest}
    (h : EventedSystem.step rt s a = some s') :
    (∃ b service, a = .service b ∧ ResendConversation.step rt s.service b = some service ∧
      s' = s.serve service) ∨ (∀ b, a ≠ .service b) ∧ s.RuntimeChange a s' := by
  cases a with
  | service b =>
      obtain ⟨service, hservice, rfl⟩ := Option.map_eq_some_iff.mp h
      exact .inl ⟨b, service, rfl, hservice, rfl⟩
  | claim runtime readAt locked => exact .inr ⟨by simp, change_claimDeliveries h⟩
  | publish runtime reached error => exact .inr ⟨by simp, change_publish h⟩
  | acknowledge runtime commits error => exact .inr ⟨by simp, change_acknowledge h⟩
  | retry runtime commits throws => exact .inr ⟨by simp, change_retry h⟩
  | crash runtime =>
      obtain rfl := Option.some.inj h
      exact .inr ⟨by simp, change_crash⟩

theorem get?_syncDeliveries (now : Time) (db : Database Digest) (t : Table DeliveryColumns.eventId)
    (id : Uuid) :
    (syncDeliveries now db t).get? id = (db.conversationEventDeliveries.get? id).map fun _ =>
      (t.get? id).getD { eventId := id, createdAt := now, nextAttemptAt := now } := by
  apply Option.ext
  intro d
  rw [Table.get?_eq_some, Option.map_eq_some_iff]
  constructor
  · rintro ⟨hd, rfl⟩
    obtain ⟨row, hrow, rfl⟩ := List.mem_map.mp hd
    have hkey : ((t.get? row.eventId).getD
        { eventId := row.eventId, createdAt := now, nextAttemptAt := now }).eventId =
          row.eventId := by
      cases hget : t.get? row.eventId with
      | none => rfl
      | some d => exact Table.key_of_get? hget
    rw [hkey]
    exact ⟨row, Table.mem_iff_get?.mp hrow, rfl⟩
  · rintro ⟨row, hrow, rfl⟩
    obtain ⟨hmem, rfl⟩ := Table.get?_eq_some.mp hrow
    refine ⟨List.mem_map.mpr ⟨row, hmem, rfl⟩, ?_⟩
    cases hget : t.get? row.eventId with
    | none => rfl
    | some d => exact Table.key_of_get? hget

end EventedSystem

end ResendConversation
