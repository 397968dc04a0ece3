import ResendConversation.StepEffects

/-! # Origins

Where the stored messages come from, and how they change.  Messages only ever evolve forward
(`SendView.Evolves`), so what a process knows of its message stays true. -/

namespace ResendConversation

open Foundation Tx

variable {Digest : Type}

/-! ### Messages over time -/

/-- A later version of a message. -/
structure SendView.Evolves (v v' : SendView Digest) : Prop where
  kind : v'.kind = v.kind
  direction : v'.direction = v.direction
  idempotencyKey : v'.idempotencyKey = v.idempotencyKey
  requestHash : v'.requestHash = v.requestHash
  createdAt : v'.createdAt = v.createdAt
  threaded : v'.threaded = v.threaded
  payload : v'.payload = v.payload
  state : v' = v ∨ (v.state ≠ .received ∧ v'.state ≠ .received ∧ v'.state ≠ .pending)

theorem SendView.Evolves.refl (v : SendView Digest) : v.Evolves v :=
  ⟨rfl, rfl, rfl, rfl, rfl, rfl, rfl, .inl rfl⟩

theorem SendView.Evolves.trans {u v w : SendView Digest} (huv : u.Evolves v) (hvw : v.Evolves w) :
    u.Evolves w := by
  refine ⟨hvw.kind.trans huv.kind, hvw.direction.trans huv.direction,
    hvw.idempotencyKey.trans huv.idempotencyKey, hvw.requestHash.trans huv.requestHash,
    hvw.createdAt.trans huv.createdAt, hvw.threaded.trans huv.threaded,
    hvw.payload.trans huv.payload, ?_⟩
  rcases hvw.state with rfl | ⟨hv, hw⟩
  · exact huv.state
  · rcases huv.state with rfl | ⟨hu, -⟩
    · exact .inr ⟨hv, hw⟩
    · exact .inr ⟨hu, hw⟩

/-- A pending message has not evolved. -/
theorem SendView.Evolves.eq_of_pending {v v' : SendView Digest} (h : v.Evolves v')
    (hp : v'.state = .pending) : v' = v :=
  h.state.resolve_right fun hne => hne.2.2 hp

theorem SendView.Evolves.eq_of_received {v v' : SendView Digest} (h : v.Evolves v')
    (hr : v.state = .received) : v' = v :=
  h.state.resolve_right fun hne => hne.1 hr

/-- A change of the state and the provider identifier only. -/
theorem SendView.Evolves.of_state {v : SendView Digest} {state : EmailMessageState}
    {resendEmailId : Option JsString} (hv : v.state ≠ .received) (hs : state ≠ .received)
    (hp : state ≠ .pending) : v.Evolves { v with state, resendEmailId } :=
  ⟨rfl, rfl, rfl, rfl, rfl, rfl, rfl, .inr ⟨hv, hs, hp⟩⟩

/-- The messages of two databases of which the second is later, and nothing was deleted. -/
structure Progress (db db' : Database Digest) (stored : Uuid → Prop) : Prop where
  nextId_le : db.nextId ≤ db'.nextId
  evolves : ∀ id v, db.view? id = some v → ∃ v', db'.view? id = some v' ∧ v.Evolves v'
  fresh : ∀ id v', db'.view? id = some v' → db.view? id = none →
    db.nextId ≤ id ∧ id < db'.nextId ∧ (v'.Inbound ∨ stored id)

theorem Progress.of_frame {φ : Uuid → SendView Digest → SendView Digest} {db db' : Database Digest}
    (h : Frame φ db db') (hφ : ∀ id v, db.view? id = some v → v.Evolves (φ id v)) :
    Progress db db' fun _ => False where
  nextId_le := h.nextId_le
  evolves := fun id v hv => ⟨φ id v, h.view id v hv, hφ id v hv⟩
  fresh := fun id v hv hnone => by
    obtain ⟨hle, hlt, hin⟩ := h.fresh id v hv hnone
    exact ⟨hle, hlt, .inl hin⟩

/-! ### Origins -/

/-- A message that a send request stored. -/
structure SendView.Outbound (rt : Runtime Digest) (v : SendView Digest) : Prop where
  direction : v.direction = .outbound
  state : v.state ≠ .received
  idempotencyKey : v.idempotencyKey.isSome
  request : ∃ request : SendRequest, v.requestHash = some (rt.hashSendRequest request) ∧
    v.kind = request.kind

/-- Where the stored messages come from. -/
structure Origins (rt : Runtime Digest) (db : Database Digest) : Prop where
  origin : ∀ id v, db.view? id = some v → id < db.nextId ∧ (v.Inbound ∨ v.Outbound rt)
  key : ∀ id id' v v', db.view? id = some v → db.view? id' = some v' → v.idempotencyKey.isSome →
    v'.idempotencyKey = v.idempotencyKey → id = id'
  unsent : ∀ id v, db.view? id = some v → v.state = .pending → v.resendEmailId = none
  conversations : ∀ c, (db.conversations.get? c).isSome → c < db.nextId

variable {rt : Runtime Digest}

theorem SendView.Outbound.evolves {v v' : SendView Digest} (h : v.Outbound rt) (hv : v.Evolves v') :
    v'.Outbound rt where
  direction := hv.direction.trans h.direction
  state := by
    rcases hv.state with rfl | ⟨-, hne, -⟩
    · exact h.state
    · exact hne
  idempotencyKey := hv.idempotencyKey ▸ h.idempotencyKey
  request := by
    obtain ⟨request, hr, hk⟩ := h.request
    exact ⟨request, hv.requestHash.trans hr, hv.kind.trans hk⟩

/-- A message with a request hash is outbound. -/
theorem Origins.outbound {db : Database Digest} (h : Origins rt db) {id : Uuid}
    {v : SendView Digest} {digest : Digest} (hv : db.view? id = some v)
    (hd : v.requestHash = some digest) :
    v.Outbound rt := by
  rcases (h.origin id v hv).2 with hin | hout
  · rw [hin.requestHash] at hd
    cases hd
  · exact hout

theorem Origins.of_progress {db db' : Database Digest} (h : Origins rt db)
    (hp : Progress db db' fun _ => False)
    (hc : ∀ c, (db'.conversations.get? c).isSome →
      (db.conversations.get? c).isSome ∨ (db.nextId ≤ c ∧ c < db'.nextId)) : Origins rt db' where
  origin := by
    intro id v' hv'
    cases hv : db.view? id with
    | none =>
        obtain ⟨-, hlt, hin | hno⟩ := hp.fresh id v' hv' hv
        · exact ⟨hlt, .inl hin⟩
        · exact hno.elim
    | some v =>
        obtain ⟨w, hw, hvw⟩ := hp.evolves id v hv
        rw [hv'] at hw
        cases hw
        obtain ⟨hlt, horigin⟩ := h.origin id v hv
        refine ⟨hlt.trans_le hp.nextId_le, ?_⟩
        rcases horigin with hin | hout
        · exact .inl (hvw.eq_of_received hin.state ▸ hin)
        · exact .inr (hout.evolves hvw)
  key := by
    intro id id' v v' hv hv' hsome heq
    have hold : ∀ k w, db'.view? k = some w → w.idempotencyKey.isSome →
        ∃ u, db.view? k = some u ∧ w.idempotencyKey = u.idempotencyKey := by
      intro k w hw hk
      cases hu : db.view? k with
      | none =>
          obtain ⟨-, -, hin | hno⟩ := hp.fresh k w hw hu
          · rw [hin.idempotencyKey] at hk
            cases hk
          · exact hno.elim
      | some u =>
          obtain ⟨w', hw', huw⟩ := hp.evolves k u hu
          rw [hw] at hw'
          cases hw'
          exact ⟨u, rfl, huw.idempotencyKey⟩
    obtain ⟨u, hu, hku⟩ := hold id v hv hsome
    obtain ⟨u', hu', hku'⟩ := hold id' v' hv' (heq ▸ hsome)
    exact h.key id id' u u' hu hu' (hku ▸ hsome) (by rw [← hku', ← hku, heq])
  unsent := by
    intro id v' hv' hpending
    cases hv : db.view? id with
    | none =>
        obtain ⟨-, -, hin | hno⟩ := hp.fresh id v' hv' hv
        · rw [hin.state] at hpending
          cases hpending
        · exact hno.elim
    | some v =>
        obtain ⟨w, hw, hvw⟩ := hp.evolves id v hv
        rw [hv'] at hw
        cases hw
        obtain rfl := hvw.eq_of_pending hpending
        exact h.unsent id _ hv hpending
  conversations := by
    intro c hsome
    rcases hc c hsome with hold | ⟨-, hlt⟩
    · exact (h.conversations c hold).trans_le hp.nextId_le
    · exact hlt

theorem Origins.of_stored {ctx : SendContext Digest} {db db' : Database Digest} {id : Uuid}
    {v : SendView Digest} (h : Origins rt db) (hs : Stored ctx db db' id v)
    (hrt : ctx.requestHash = rt.hashSendRequest ctx.request) : Origins rt db' where
  origin := by
    intro k w hw
    cases hk : db.view? k with
    | some u =>
        obtain rfl : w = u := Option.some.inj (hw.symm.trans (hs.view k u hk))
        obtain ⟨hlt, ho⟩ := h.origin k w hk
        exact ⟨hlt.trans_le (hs.nextId_le.trans hs.lt_nextId.le), ho⟩
    | none =>
        rcases hs.fresh k w hw hk with rfl | ⟨-, hlt, hin⟩
        · rw [hs.stored] at hw
          cases hw
          refine ⟨hs.lt_nextId, .inr ⟨hs.intended.direction, ?_, ?_, ?_⟩⟩
          · rw [hs.intended.state]
            simp
          · rw [hs.intended.idempotencyKey]
            rfl
          · exact ⟨ctx.request, hs.intended.requestHash.trans (by rw [hrt]), hs.intended.kind⟩
        · exact ⟨hlt, .inl hin⟩
  key := by
    -- the key of the new message was free, and inbound messages have none
    have hcases : ∀ k w, db'.view? k = some w → w.idempotencyKey.isSome →
        db.view? k = some w ∨ (k = id ∧ w.idempotencyKey = some ctx.idempotencyKey) := by
      intro k w hw hsome
      cases hk : db.view? k with
      | some u =>
          have := hs.view k u hk
          rw [hw] at this
          exact .inl this.symm
      | none =>
          rcases hs.fresh k w hw hk with rfl | ⟨-, -, hin⟩
          · rw [hs.stored] at hw
            cases hw
            exact .inr ⟨rfl, hs.intended.idempotencyKey⟩
          · rw [hin.idempotencyKey] at hsome
            cases hsome
    intro k k' w w' hw hw' hsome heq
    rcases hcases k w hw hsome with hold | ⟨rfl, hkey⟩
    · rcases hcases k' w' hw' (heq ▸ hsome) with hold' | ⟨rfl, hkey'⟩
      · exact h.key k k' w w' hold hold' hsome heq
      · exact absurd (heq.symm.trans hkey') (hs.key k w hold)
    · rcases hcases k' w' hw' (heq ▸ hsome) with hold' | ⟨rfl, -⟩
      · exact absurd (heq.trans hkey) (hs.key k' w' hold')
      · rfl
  unsent := by
    intro k w hw hpending
    cases hk : db.view? k with
    | some u =>
        obtain rfl : w = u := Option.some.inj (hw.symm.trans (hs.view k u hk))
        exact h.unsent k w hk hpending
    | none =>
        rcases hs.fresh k w hw hk with rfl | ⟨-, -, hin⟩
        · rw [hs.stored] at hw
          cases hw
          exact hs.intended.resendEmailId
        · rw [hin.state] at hpending
          cases hpending
  conversations := by
    intro c hsome
    rcases hs.conversations.created c hsome with hold | ⟨-, hlt⟩
    · exact (h.conversations c hold).trans_le (hs.nextId_le.trans hs.lt_nextId.le)
    · exact hlt

/-- The messages that a deletion keeps. -/
theorem ConversationDeleted.view_of_view {c : Uuid} {db db' : Database Digest}
    (hd : ConversationDeleted c db db') {id : Uuid} {v : SendView Digest}
    (hv : db'.view? id = some v) :
    ∃ m, db.messages.get? id = some m ∧ m.conversationId ≠ some c ∧ m.sendView = v := by
  obtain ⟨m', hm', rfl⟩ := Database.view?_eq_some.mp hv
  cases hm : db.messages.get? id with
  | none => simp [hd.origin id hm] at hm'
  | some m =>
      by_cases hc : m.conversationId = some c
      · simp [hd.gone id m hm hc] at hm'
      · obtain ⟨m'', hm'', hview, -⟩ := hd.kept id m hm hc
        rw [hm'] at hm''
        cases hm''
        exact ⟨m, rfl, hc, hview.symm⟩

theorem Origins.of_deleted {c : Uuid} {db db' : Database Digest} (h : Origins rt db)
    (hd : ConversationDeleted c db db') : Origins rt db' := by
  have hold : ∀ id v, db'.view? id = some v → db.view? id = some v := by
    intro id v hv
    obtain ⟨m, hm, -, rfl⟩ := hd.view_of_view hv
    exact Database.view?_of_get? hm
  refine ⟨fun id v hv => ?_, fun id id' v v' hv hv' => ?_, fun id v hv => ?_, fun d hsome => ?_⟩
  · obtain ⟨hlt, ho⟩ := h.origin id v (hold id v hv)
    exact ⟨hlt.trans_le hd.nextId_le, ho⟩
  · exact h.key id id' v v' (hold id v hv) (hold id' v' hv')
  · exact h.unsent id v (hold id v hv)
  · rcases hd.created d hsome with hold | ⟨-, hlt⟩
    · exact (h.conversations d hold).trans_le hd.nextId_le
    · exact hlt

end ResendConversation
