import ResendConversation.Coherence

/-! # Received messages

No delivery acts on an inbound message: `Reachable.received` says that an inbound message is
received and has no request hash, and that a handler at work delivers an outbound message. -/

namespace ResendConversation

open Foundation Tx

variable {Digest : Type} {rt : Runtime Digest}

/-- The inbound messages, and the messages that are delivered. -/
structure Received (s : System Digest) : Prop where
  lt : ∀ id v, s.db.view? id = some v → id < s.db.nextId
  inbound : ∀ id v, s.db.view? id = some v → v.direction = .inbound →
    v.state = .received ∧ v.requestHash = none
  delivers : ∀ pid p request id, s.Runs pid p → p.delivers = some (request, id) →
    id < s.db.nextId ∧ ∀ v, s.db.view? id = some v → v.direction = .outbound

theorem received_initial (config : Config) (now : Time) :
    Received (System.initial config now : System Digest) := by
  refine ⟨?_, ?_, ?_⟩
  all_goals simp [System.initial, System.Runs, Database.initial, Database.view?,
    Table.empty, Table.get?]

theorem Received.state {s : System Digest} (h : Received s) {m : EmailMessage Digest}
    (hm : m ∈ s.db.messages) (hin : m.direction = .inbound) : m.state = .received :=
  (h.inbound m.id _ (Database.view?_of_get? (Table.mem_iff_get?.mp hm)) hin).1

/-- A step that leaves the inbound messages alone. -/
theorem Received.of_frame {s s' : System Digest} {φ : Uuid → SendView Digest → SendView Digest}
    (h : Received s) (hf : Frame φ s.db s'.db)
    (hφ : ∀ id v, s.db.view? id = some v → (φ id v).direction = v.direction ∧
      (v.direction = .inbound → φ id v = v))
    (hruns : ∀ pid p request id, s'.Runs pid p → p.delivers = some (request, id) →
      (∃ p', s.Runs pid p' ∧ p'.delivers = some (request, id)) ∨
        (id < s'.db.nextId ∧ ∀ v, s'.db.view? id = some v → v.direction = .outbound)) :
    Received s' where
  lt := by
    intro id v hv
    cases hold : s.db.view? id with
    | none => exact (hf.fresh id v hv hold).2.1
    | some w => exact (h.lt id w hold).trans_le hf.nextId_le
  inbound := by
    intro id v hv hin
    cases hold : s.db.view? id with
    | none =>
        have hinbound := (hf.fresh id v hv hold).2.2
        exact ⟨hinbound.state, hinbound.requestHash⟩
    | some w =>
        obtain rfl : φ id w = v := Option.some.inj ((hf.view id w hold).symm.trans hv)
        obtain ⟨hd, hsame⟩ := hφ id w hold
        have hw : w.direction = .inbound := hd ▸ hin
        rw [hsame hw]
        exact h.inbound id w hold hw
  delivers := by
    intro pid p request id hp hd
    rcases hruns pid p request id hp hd with ⟨p', hp', hd'⟩ | hnew
    · obtain ⟨hlt, hout⟩ := h.delivers pid p' request id hp' hd'
      refine ⟨hlt.trans_le hf.nextId_le, fun v hv => ?_⟩
      cases hold : s.db.view? id with
      | none => exact absurd hlt (not_lt_of_ge (hf.fresh id v hv hold).1)
      | some w =>
          obtain rfl : φ id w = v := Option.some.inj ((hf.view id w hold).symm.trans hv)
          rw [(hφ id w hold).1]
          exact hout w hold
    · exact hnew

/-- A step that changes no message of the lanes. -/
theorem Received.of_same {s s' : System Digest} (h : Received s)
    (hf : Frame (fun _ v => v) s.db s'.db)
    (hruns : ∀ pid p request id, s'.Runs pid p → p.delivers = some (request, id) →
      (∃ p', s.Runs pid p' ∧ p'.delivers = some (request, id)) ∨
        (id < s'.db.nextId ∧ ∀ v, s'.db.view? id = some v → v.direction = .outbound)) :
    Received s' :=
  h.of_frame hf (fun _ _ _ => ⟨rfl, fun _ => rfl⟩) hruns

/-- A step of a process that delivers what it delivered before, or nothing. -/
theorem System.delivers_of_become {s s' : System Digest} {pid : ℕ} {p : Proc Digest}
    (hs : s'.procs = s.procs)
    (hkeep : p.delivers = none ∨ ∃ p₀, s.Runs pid p₀ ∧ p₀.delivers = p.delivers) :
    ∀ q p' request id, (s'.become pid p).Runs q p' → p'.delivers = some (request, id) →
      (∃ p₁, s.Runs q p₁ ∧ p₁.delivers = some (request, id)) ∨
        (id < (s'.become pid p).db.nextId ∧
          ∀ v, (s'.become pid p).db.view? id = some v → v.direction = .outbound) :=
  fun q p' request id hq hd => .inl (System.kept_of_become hs hkeep q p' (request, id) hq hd)

theorem delivers_of_idle {p : Proc Digest} (h : p.sends = false) : p.delivers = none := by
  unfold Proc.sends at h
  cases hd : p.delivers with
  | none => rfl
  | some x => simp [hd] at h

/-- A synchronous delivery rewrites its message, which is outbound. -/
theorem Received.of_rewrite {s s' : System Digest} (h : Received s) {pid : ℕ} {p : Proc Digest}
    (hp : s.Runs pid p) {request : SendRequest} {id : Uuid} (hd : p.delivers = some (request, id))
    {f : SendView Digest → SendView Digest} (hr : Rewrite (onMessage id f) s.db s'.db)
    (hf : ∀ v : SendView Digest, (f v).direction = v.direction)
    (hruns : ∀ pid p request id, s'.Runs pid p → p.delivers = some (request, id) →
      (∃ p', s.Runs pid p' ∧ p'.delivers = some (request, id)) ∨
        (id < s'.db.nextId ∧ ∀ v, s'.db.view? id = some v → v.direction = .outbound)) :
    Received s' := by
  refine h.of_frame hr.toFrame (fun k v hv => ?_) hruns
  unfold onMessage
  split
  next hk =>
    refine ⟨hf v, fun hin => ?_⟩
    have hout := (h.delivers pid p request id hp hd).2 v (hk ▸ hv)
    rw [hin] at hout
    cases hout
  next => exact ⟨rfl, fun _ => rfl⟩

theorem SendView.direction_thrown (error : SendError) (v : SendView Digest) :
    (v.thrown error).direction = v.direction := by
  unfold thrown
  split_ifs <;> rfl

theorem SendView.direction_expired (v : SendView Digest) : v.expired.direction = v.direction := by
  unfold expired
  split <;> rfl

theorem SendView.direction_settled (result : Except SendError JsString) (v : SendView Digest) :
    (SendView.settled result v).direction = v.direction := by
  cases result with
  | ok id => rfl
  | error error => exact v.direction_thrown error

/-- A finalization only ends pending messages, and no inbound message is pending. -/
theorem Received.apply_eq {s : System Digest} (h : Received s)
    {φ : SendView Digest → SendView Digest} {b : Bool} {id : Uuid} {v : SendView Digest}
    (hv : s.db.view? id = some v) (hφ : (φ v).direction = v.direction) :
    (if b && v.state == .pending then φ v else v).direction = v.direction ∧
      (v.direction = .inbound → (if b && v.state == .pending then φ v else v) = v) := by
  split
  next hcase =>
    refine ⟨hφ, fun hin => ?_⟩
    rw [(h.inbound id v hv hin).1] at hcase
    simp at hcase
  next => exact ⟨rfl, fun _ => rfl⟩

/-- Every step keeps the invariant. -/
theorem Effect.received {s s' : System Digest} {a : Action Digest} (h : Received s)
    (he : Effect rt s a s') : Received s' := by
  have hrefl : Frame (fun _ v => v) s.db s.db := (Std.Refl.refl (r := Background) _).toFrame
  have hdraw := (background_nextId s.db (Nat.le_succ s.db.nextId)).toFrame
  cases he with
  | quiet passive provider leases objects now retires =>
      exact h.of_same passive.toFrame fun pid p request id hp hd => .inl
        ⟨p, retires pid p hp (.inl (by simp [Proc.sends, hd])), hd⟩
  | filed background provider leases now retires =>
      exact h.of_same background.toFrame fun pid p request id hp hd => .inl
        ⟨p, retires pid p hp (by simp [Proc.sends, hd]), hd⟩
  | reached callId accepted answer provider action reach eq =>
      subst eq
      exact h.of_same hrefl fun pid p request id hp hd => .inl ⟨p, hp, hd⟩
  | deleted c db' action deletion eq =>
      subst eq
      have hold : ∀ id v, db'.view? id = some v → s.db.view? id = some v := by
        intro id v hv
        obtain ⟨m, hm, -, rfl⟩ := deletion.view_of_view hv
        exact Database.view?_of_get? hm
      exact
        { lt := fun id v hv => (h.lt id v (hold id v hv)).trans_le deletion.nextId_le
          inbound := fun id v hv => h.inbound id v (hold id v hv)
          delivers := fun pid p request id hp hd => by
            obtain ⟨hlt, hout⟩ := h.delivers pid p request id hp hd
            exact ⟨hlt.trans_le deletion.nextId_le, fun v hv => hout v (hold id v hv)⟩ }
  | stored pid c handler reopened db' id p action runs reopens stores next eq =>
      subst eq
      obtain ⟨⟨v, hs⟩, -⟩ := stores
      have hsame : ∀ k w, db'.view? k = some w → s.db.view? k = some w ∨ (k = id ∧ w = v) ∨
          (s.db.nextId ≤ k ∧ k < db'.nextId ∧ w.Inbound) := by
        intro k w hw
        cases hold : s.db.view? k with
        | some w' =>
            obtain rfl : w' = w := Option.some.inj ((hs.view k w' hold).symm.trans hw)
            exact .inl rfl
        | none =>
            rcases hs.fresh k w hw hold with rfl | hin
            · exact .inr (.inl ⟨rfl, Option.some.inj (hw.symm.trans hs.stored)⟩)
            · exact .inr (.inr hin)
      have hn : s.db.nextId ≤ db'.nextId := hs.nextId_le.trans hs.lt_nextId.le
      refine ⟨fun k w hw => ?_, fun k w hw hin => ?_, fun q p' request k hq hd => ?_⟩
      · rcases hsame k w hw with hold | ⟨rfl, -⟩ | ⟨-, hlt, -⟩
        · exact (h.lt k w hold).trans_le hn
        · exact hs.lt_nextId
        · exact hlt
      · rcases hsame k w hw with hold | ⟨-, rfl⟩ | ⟨-, -, hinbound⟩
        · exact h.inbound k w hold hin
        · rw [hs.intended.direction] at hin
          cases hin
        · exact ⟨hinbound.state, hinbound.requestHash⟩
      · rcases System.runs_become.mp hq with ⟨-, rfl⟩ | ⟨-, hold⟩
        · split at next
          · rw [delivers_of_idle next.1] at hd
            cases hd
          · subst next
            cases hd
            refine ⟨hs.lt_nextId, fun w hw => ?_⟩
            obtain rfl : v = w := Option.some.inj (hs.stored.symm.trans hw)
            exact hs.intended.direction
        · obtain ⟨hlt, hout⟩ := h.delivers q p' request k hold hd
          refine ⟨hlt.trans_le hn, fun w hw => ?_⟩
          rcases hsame k w hw with hold | ⟨rfl, rfl⟩ | ⟨hle, -, -⟩
          · exact hout w hold
          · exact hs.intended.direction
          · exact absurd hlt (not_lt_of_ge hle)
  | engaged pid c handler m action runs found hash sync eq =>
      subst eq
      have hm := Database.view?_of_get? (Table.mem_iff_get?.mp found)
      refine h.of_same hrefl fun q p' request id hq hd => ?_
      rcases System.runs_become.mp hq with ⟨-, rfl⟩ | ⟨-, hold⟩
      · cases hd
        refine .inr ⟨h.lt _ _ hm, fun v hv => ?_⟩
        obtain rfl : m.sendView = v := Option.some.inj (hm.symm.trans hv)
        by_contra hin
        have hdirection : m.sendView.direction = .inbound := by
          cases hd : m.sendView.direction with
          | inbound => rfl
          | outbound => exact absurd hd hin
        have hnone : m.requestHash = none := (h.inbound _ _ hm hdirection).2
        rw [hnone] at hash
        cases hash
      · exact .inl ⟨p', hold, hd⟩
  | reopening pid c handler conversation action runs found topic eq =>
      subst eq
      exact h.of_same hrefl (System.delivers_of_become rfl (.inl rfl))
  | expiring pid c handler id action runs phase eq =>
      subst eq
      exact h.of_same hrefl
        (System.delivers_of_become rfl
        (.inr ⟨_, runs, by simp [Proc.delivers, phase, SendHandler.goto]⟩))
  | resumed pid c handler m action runs phase found window eq =>
      subst eq
      exact h.of_same hrefl
        (System.delivers_of_become rfl
        (.inr ⟨_, runs, by simp [Proc.delivers, phase, SendHandler.goto]⟩))
  | prepared pid c handler d attachments action runs phase eq =>
      subst eq
      exact h.of_same hrefl
        (System.delivers_of_become rfl
        (.inr ⟨_, runs, by simp [Proc.delivers, phase, SendHandler.goto]⟩))
  | expired pid c handler id db' p action runs phase rewrite next eq =>
      subst eq
      exact h.of_rewrite runs (show _ = some (handler.request, id) by
        simp [Proc.delivers, phase]) rewrite
        SendView.direction_expired (System.delivers_of_become rfl (.inl (delivers_of_idle next.1)))
  | called pid c handler d attachments m action runs phase free found pending eq =>
      subst eq
      exact h.of_same hdraw
        (System.delivers_of_become rfl
        (.inr ⟨_, runs, by simp [Proc.delivers, phase, SendHandler.goto]⟩))
  | refused pid c handler d attachments m error db' p action runs phase free found pending cause
      rewrite next eq =>
      subst eq
      exact h.of_rewrite runs (show _ = some (handler.request, d.messageId) by
        simp [Proc.delivers, phase])
        rewrite (SendView.direction_thrown error)
        (System.delivers_of_become rfl (.inl (delivers_of_idle next.1)))
  | settled pid c handler d m callId observation db' p action runs phase waits observed
      rewrite next eq =>
      subst eq
      rcases rewrite with rfl | rewrite
      · exact h.of_same hrefl (System.delivers_of_become rfl (.inl (delivers_of_idle next.1)))
      · exact h.of_rewrite runs (show _ = some (handler.request, d.messageId) by
          simp [Proc.delivers, phase])
          rewrite (SendView.direction_settled _)
          (System.delivers_of_become rfl (.inl (delivers_of_idle next.1)))
  | batchSwept pid p next eq =>
      subst eq
      exact h.of_same (hdraw.of_tables rfl rfl rfl)
        (System.delivers_of_become rfl (.inl (delivers_of_idle next.1)))
  | batchClaimed pid c loaded db' p claim free next eq =>
      subst eq
      refine h.of_same claim.frame (System.delivers_of_become rfl (.inl ?_))
      rw [next]
      split <;> rfl
  | batchSkipped pid c batch claimedAt decision action runs decided eq =>
      subst eq
      exact h.of_same hrefl (System.delivers_of_become rfl (.inl rfl))
  | batchCalled pid c batch claimedAt action runs window eq =>
      subst eq
      exact h.of_same hdraw (System.delivers_of_become rfl (.inl rfl))
  | batchObserved pid c batch callId observation action runs observed eq =>
      subst eq
      exact h.of_same hrefl (System.delivers_of_become rfl (.inl rfl))
  | batchFinalized pid c batch decision db' p action runs finalized next eq =>
      subst eq
      refine h.of_frame finalized.toFrame (fun id v hv => ?_)
        (System.delivers_of_become rfl (.inl (delivers_of_idle next.1)))
      exact h.apply_eq hv (by cases decision <;> rfl)
  | batchRescheduled pid c batch decision db' p action runs rescheduled next eq =>
      subst eq
      exact h.of_same rescheduled.frame
        (System.delivers_of_become rfl (.inl (delivers_of_idle next.1)))
  | entrySwept pid p next eq =>
      subst eq
      exact h.of_same (hdraw.of_tables rfl rfl rfl)
        (System.delivers_of_become rfl (.inl (delivers_of_idle next.1)))
  | entryClaimed pid c remaining result entry e db' action runs claim eq =>
      subst eq
      exact h.of_same claim.frame (System.delivers_of_become rfl (.inl rfl))
  | entrySkipped pid c remaining result entry claimedAt decision action runs decided eq =>
      subst eq
      exact h.of_same hrefl (System.delivers_of_become rfl (.inl rfl))
  | entryCalled pid c remaining result entry claimedAt attachments action runs window eq =>
      subst eq
      exact h.of_same hdraw (System.delivers_of_become rfl (.inl rfl))
  | entryObserved pid c remaining result entry callId observation action runs observed eq =>
      subst eq
      exact h.of_same hrefl (System.delivers_of_become rfl (.inl rfl))
  | entryFinalized pid c remaining result entry decision db' p action runs finalized next eq =>
      subst eq
      refine h.of_frame finalized.toFrame (fun id v hv => ?_)
        (System.delivers_of_become rfl (.inl (delivers_of_idle next.1)))
      exact h.apply_eq hv (by cases decision <;> rfl)
  | entryRescheduled pid c remaining result entry decision db' p action runs rescheduled next eq =>
      subst eq
      exact h.of_same rescheduled.frame
        (System.delivers_of_become rfl (.inl (delivers_of_idle next.1)))
  | entryRedecided pid c remaining result entry decision name message action runs eq =>
      subst eq
      exact h.of_same hrefl (System.delivers_of_become rfl (.inl rfl))

end ResendConversation
