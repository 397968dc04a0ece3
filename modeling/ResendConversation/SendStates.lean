import ResendConversation.Writes

/-! # Terminal send states

The advisory lock of a delivery admits one delivery of a message at a time, but the guarded
update of a replay whose window has passed does not take it.  As long as no replay expires a
message while a delivery of it waits for the provider, a waiting delivery finds its message
pending, and terminal states and provider identifiers never change
(`Run.send_states_absorbing`).  Otherwise they can (`send_state_overwritten`). -/

namespace ResendConversation

open Foundation

variable {Digest : Type} {rt : Runtime Digest}

/-! ### The lock -/

/-- The message that a process has locked. -/
def Proc.locked : Proc Digest → Option Uuid
  | .send h =>
      match h.phase with
      | .deliver d (.calling _ _) => some d.messageId
      | _ => none
  | _ => none

theorem Proc.holdsLock_iff {p : Proc Digest} {id : Uuid} :
    p.holdsLock id = true ↔ p.locked = some id := by
  cases p with
  | send h =>
      obtain ⟨request, key, phase⟩ := h
      cases phase with
      | deliver d phase => cases phase <;> simp [holdsLock, locked]
      | _ => simp [holdsLock, locked]
  | _ => simp [holdsLock, locked]

theorem Proc.locked_eq_none {p : Proc Digest} (h : p.sends = false) : p.locked = none := by
  cases p with
  | send h =>
      simp only [locked]
      split
      next d m callId hphase => simp [sends, delivers, hphase] at h
      next => rfl
  | _ => rfl

theorem Proc.delivers_of_locked {p : Proc Digest} {id : Uuid} (h : p.locked = some id) :
    ∃ request, p.delivers = some (request, id) := by
  cases p with
  | send h' =>
      simp only [locked] at h
      split at h
      next d m callId hphase =>
        cases h
        exact ⟨h'.request, by simp [delivers, hphase]⟩
      next => cases h
  | _ => cases h

/-- A lock after a step was held before it, or was taken by the step while it was free. -/
theorem Effect.locked {s s' : System Digest} {a : Action Digest} (he : Effect rt s a s') {q : ℕ}
    {p : Proc Digest} {id : Uuid} (hq : s'.Runs q p) (hl : p.locked = some id) :
    (∃ p₀, s.Runs q p₀ ∧ p₀.locked = some id) ∨
      ((∀ q' p', s.Runs q' p' → p'.holdsLock id = false) ∧ (∃ c, a = .run q c) ∧
        ∃ v, s'.db.view? id = some v ∧ v.state = .pending) := by
  cases he with
  | quiet passive provider leases objects now retires =>
      exact .inl (System.kept_of_retires (fun _ => Proc.locked_eq_none)
        (fun pid p hp hs => retires pid p hp (.inl hs)) q p id hq hl)
  | filed background provider leases now retires =>
      exact .inl (System.kept_of_retires (fun _ => Proc.locked_eq_none) retires q p id hq hl)
  | reached callId accepted answer provider action reach eq =>
      subst eq
      exact .inl ⟨p, hq, hl⟩
  | deleted c db' action deletion eq =>
      subst eq
      exact .inl ⟨p, hq, hl⟩
  | stored pid c handler reopened db' k p₀ action runs reopens stores next eq =>
      subst eq
      refine .inl (System.kept_of_become rfl (.inl ?_) q p id hq hl)
      split at next
      next => exact Proc.locked_eq_none next.1
      next => rw [next]; rfl
  | engaged pid c handler m action runs found hash sync eq =>
      subst eq
      exact .inl (System.kept_of_become rfl (.inl rfl) q p id hq hl)
  | reopening pid c handler conversation action runs found topic eq =>
      subst eq
      exact .inl (System.kept_of_become rfl (.inl rfl) q p id hq hl)
  | expiring pid c handler k action runs phase eq =>
      subst eq
      exact .inl (System.kept_of_become rfl (.inl rfl) q p id hq hl)
  | resumed pid c handler m action runs phase found window eq =>
      subst eq
      exact .inl (System.kept_of_become rfl (.inl rfl) q p id hq hl)
  | prepared pid c handler d attachments action runs phase eq =>
      subst eq
      exact .inl (System.kept_of_become rfl (.inl rfl) q p id hq hl)
  | expired pid c handler k db' p₀ action runs phase rewrite next eq =>
      subst eq
      exact .inl (System.kept_of_become rfl (.inl (Proc.locked_eq_none next.1)) q p id hq hl)
  | called pid c handler d attachments m action runs phase free found pending eq =>
      subst eq
      rcases System.runs_become.mp hq with ⟨rfl, rfl⟩ | ⟨-, hold⟩
      · obtain rfl := Option.some.inj hl
        exact .inr ⟨free, ⟨c, action⟩, m.sendView, Database.view?_of_get? found, pending⟩
      · exact .inl ⟨p, hold, hl⟩
  | refused pid c handler d attachments m error db' p₀ action runs phase free found pending cause
      rewrite next eq =>
      subst eq
      exact .inl (System.kept_of_become rfl (.inl (Proc.locked_eq_none next.1)) q p id hq hl)
  | settled pid c handler d m callId observation db' p₀ action runs phase waits observed
      rewrite next eq =>
      subst eq
      exact .inl (System.kept_of_become rfl (.inl (Proc.locked_eq_none next.1)) q p id hq hl)
  | batchSwept pid p₀ next eq =>
      subst eq
      exact .inl (System.kept_of_become rfl (.inl (Proc.locked_eq_none next.1)) q p id hq hl)
  | batchClaimed pid c loaded db' p₀ claim free next eq =>
      subst eq
      refine .inl (System.kept_of_become rfl (.inl ?_) q p id hq hl)
      rw [next]
      split <;> rfl
  | batchSkipped pid c batch claimedAt decision action runs decided eq =>
      subst eq
      exact .inl (System.kept_of_become rfl (.inl rfl) q p id hq hl)
  | batchCalled pid c batch claimedAt action runs window eq =>
      subst eq
      exact .inl (System.kept_of_become rfl (.inl rfl) q p id hq hl)
  | batchObserved pid c batch callId observation action runs observed eq =>
      subst eq
      exact .inl (System.kept_of_become rfl (.inl rfl) q p id hq hl)
  | batchFinalized pid c batch decision db' p₀ action runs finalized next eq =>
      subst eq
      exact .inl (System.kept_of_become rfl (.inl (Proc.locked_eq_none next.1)) q p id hq hl)
  | batchRescheduled pid c batch decision db' p₀ action runs rescheduled next eq =>
      subst eq
      exact .inl (System.kept_of_become rfl (.inl (Proc.locked_eq_none next.1)) q p id hq hl)
  | entrySwept pid p₀ next eq =>
      subst eq
      exact .inl (System.kept_of_become rfl (.inl (Proc.locked_eq_none next.1)) q p id hq hl)
  | entryClaimed pid c remaining result entry e db' action runs claim eq =>
      subst eq
      exact .inl (System.kept_of_become rfl (.inl rfl) q p id hq hl)
  | entrySkipped pid c remaining result entry claimedAt decision action runs decided eq =>
      subst eq
      exact .inl (System.kept_of_become rfl (.inl rfl) q p id hq hl)
  | entryCalled pid c remaining result entry claimedAt attachments action runs window eq =>
      subst eq
      exact .inl (System.kept_of_become rfl (.inl rfl) q p id hq hl)
  | entryObserved pid c remaining result entry callId observation action runs observed eq =>
      subst eq
      exact .inl (System.kept_of_become rfl (.inl rfl) q p id hq hl)
  | entryFinalized pid c remaining result entry decision db' p₀ action runs finalized next eq =>
      subst eq
      exact .inl (System.kept_of_become rfl (.inl (Proc.locked_eq_none next.1)) q p id hq hl)
  | entryRescheduled pid c remaining result entry decision db' p₀ action runs rescheduled next eq =>
      subst eq
      exact .inl (System.kept_of_become rfl (.inl (Proc.locked_eq_none next.1)) q p id hq hl)
  | entryRedecided pid c remaining result entry decision name message action runs eq =>
      subst eq
      exact .inl (System.kept_of_become rfl (.inl rfl) q p id hq hl)

/-- Each message is locked once, and while it is locked its state is one of `Q`. -/
structure Locks (Q : EmailMessageState → Prop) (s : System Digest) : Prop where
  unique : ∀ pid q p p' id, s.Runs pid p → s.Runs q p' → p.locked = some id → p'.locked = some id →
    pid = q
  state : ∀ pid p id v, s.Runs pid p → p.locked = some id → s.db.view? id = some v → Q v.state

/-- The message that a replay is about to expire. -/
def Proc.expires : Proc Digest → Option Uuid
  | .send h =>
      match h.phase with
      | .expire id => some id
      | _ => none
  | _ => none

/-- No replay expires a message while a delivery of it waits for the provider. -/
def ExpiresAlone (s : System Digest) : Action Digest → Prop
  | .run pid _ => ∀ x ∈ s.procs, x.1 = pid → ∀ y ∈ s.procs,
      x.2.expires.all (fun id => !y.2.holdsLock id) = true
  | _ => True

instance (s : System Digest) : ∀ a, Decidable (ExpiresAlone s a)
  | .run pid _ => inferInstanceAs (Decidable (∀ x ∈ s.procs, x.1 = pid → ∀ y ∈ s.procs,
      x.2.expires.all (fun id => !y.2.holdsLock id) = true))
  | .tick _ | .reconfigure _ | .start _ _ _ | .crash _ | .reach _ _ _ | .deliveryWebhook _ _ _ _ _
  | .operator _ => .isTrue trivial

theorem ExpiresAlone.free {s : System Digest} {pid : ℕ} {c : Choice Digest} {h : SendHandler Digest}
    {id : Uuid} (hok : ExpiresAlone s (.run pid c)) (hr : s.Runs pid (.send h))
    (hphase : h.phase = .expire id) {q : ℕ} {p : Proc Digest} (hp : s.Runs q p) :
    p.holdsLock id = false := by
  have := hok _ (System.runs_iff_mem.mp hr) rfl _ (System.runs_iff_mem.mp hp)
  simpa [Proc.expires, hphase] using this

section

variable {Q : EmailMessageState → Prop}

/-- The writer of a locked message is the process that has locked it, or a replay that expires
it. -/
theorem Locks.write {s s' : System Digest} {a : Action Digest}
    (hinj : Function.Injective rt.hashSendRequest) (hc : Coherent rt s) (h : Locks Q s) {pid : ℕ}
    {p : Proc Digest} {id : Uuid} {v v' : SendView Digest} (hp : s.Runs pid p)
    (hl : p.locked = some id) (hv : s.db.view? id = some v) (hw : MessageWrite s a s' id v v') :
    (∀ p', s'.Runs pid p' → p'.sends = false) ∨
      (¬ExpiresAlone s a ∧ v'.state = .indeterminate) := by
  obtain ⟨request, hd⟩ := Proc.delivers_of_locked hl
  have hlock := Proc.holdsLock_iff.mpr hl
  cases hw with
  | expired q c handler action runs phase pending eq =>
      subst action
      refine .inr ⟨fun hok => ?_, ?_⟩
      · rw [hok.free runs phase hp] at hlock
        cases hlock
      · rw [eq, SendView.expired, if_pos pending]
  | refused q c handler d attachments m error action runs message phase free pending
      cause found eq =>
      rw [free pid p hp] at hlock
      cases hlock
  | settled q c handler d m callId observation action runs message phase observed done eq =>
      have hq : (Proc.send handler).locked = some id := by simp [Proc.locked, phase, message]
      rw [h.unique pid q p _ id hp runs hl hq]
      exact .inl done
  | batchFinalized q c batch decision action runs terminal owned message pending eq =>
      exact absurd (hc.queued_of_batch runs owned message hv)
        (hc.not_queued_of_delivers hinj hp hd hv)
  | entryFinalized q c remaining result entry decision action runs terminal owned message
      pending eq =>
      subst message
      exact absurd (hc.queued_of_entry owned hv) (hc.not_queued_of_delivers hinj hp hd hv)

theorem Effect.locks {s s' : System Digest} {a : Action Digest}
    (hinj : Function.Injective rt.hashSendRequest) (hc : Coherent rt s) (h : Locks Q s)
    (hpending : Q .pending) (hexpired : ExpiresAlone s a ∨ Q .indeterminate)
    (he : Effect rt s a s') : Locks Q s' := by
  obtain ⟨-, hl⟩ := he.coherent hinj hc
  refine ⟨fun pid q p p' id hp hq hlp hlq => ?_, fun pid p id v' hp hlp hv' => ?_⟩
  · have hfree : ∀ {q p}, s.Runs q p → p.locked = some id →
        ¬∀ q' p', s.Runs q' p' → p'.holdsLock id = false := fun hr hl hfree => by
      have := hfree _ _ hr
      rw [Proc.holdsLock_iff.mpr hl] at this
      cases this
    rcases he.locked hp hlp with ⟨p₀, hp₀, hl₀⟩ | ⟨hnone, ⟨c, hrun⟩, -⟩
    · rcases he.locked hq hlq with ⟨p₁, hp₁, hl₁⟩ | ⟨hnone, -⟩
      · exact h.unique pid q p₀ p₁ id hp₀ hp₁ hl₀ hl₁
      · exact absurd hnone (hfree hp₀ hl₀)
    · rcases he.locked hq hlq with ⟨p₁, hp₁, hl₁⟩ | ⟨-, ⟨c', hrun'⟩, -⟩
      · exact absurd hnone (hfree hp₁ hl₁)
      · exact (Action.run.inj (hrun.symm.trans hrun')).1
  · rcases he.locked hp hlp with ⟨p₀, hp₀, hl₀⟩ | ⟨-, -, w, hw, hstate⟩
    · obtain ⟨request, hd⟩ := Proc.delivers_of_locked hl₀
      obtain ⟨hid, -⟩ := (hc.fits pid p₀ hp₀).delivers _ _ hd
      obtain ⟨v, hv, -⟩ := hl.view id v' hid hv'
      by_cases hne : v' = v
      · exact hne ▸ h.state pid p₀ id v hp₀ hl₀ hv
      · rcases h.write hinj hc hp₀ hl₀ hv (he.write hv hv' hne) with hdone | ⟨hnot, hstate⟩
        · -- the writer has released the lock
          rw [Proc.locked_eq_none (hdone p hp)] at hlp
          cases hlp
        · exact hstate ▸ hexpired.resolve_left hnot
    · rw [hv'] at hw
      cases hw
      exact hstate ▸ hpending

theorem locks_initial (config : Config) (now : Time) :
    Locks Q (System.initial config now : System Digest) := by
  refine ⟨?_, ?_⟩
  all_goals simp [System.initial, System.Runs, Table.empty, Table.get?]

/-- Only a message whose state a delivery can meet is written. -/
theorem Locks.write_state {s s' : System Digest} {a : Action Digest} (h : Locks Q s) {id : Uuid}
    {v v' : SendView Digest} (hv : s.db.view? id = some v) (hw : MessageWrite s a s' id v v') :
    v.state = .pending ∨ Q v.state := by
  cases hw with
  | expired q c handler action runs phase pending eq => exact .inl pending
  | refused q c handler d attachments m error action runs message phase free pending
      cause found eq =>
      exact .inl pending
  | settled q c handler d m callId observation action runs message phase observed done eq =>
      exact .inr (h.state q _ id v runs (by simp [Proc.locked, phase, message]) hv)
  | batchFinalized q c batch decision action runs terminal owned message pending eq =>
      exact .inl pending
  | entryFinalized q c remaining result entry decision action runs terminal owned message
      pending eq =>
      exact .inl pending

end

/-! ### Terminal states -/

variable [DecidableEq Digest]

/-- In a run whose steps keep the locks, a message in no state of `Q` does not change. -/
theorem Run.view_absorbing {Q : EmailMessageState → Prop}
    {ok : System Digest → Action Digest → Prop} (hinj : Function.Injective rt.hashSendRequest)
    (hpending : Q .pending) (hok : ∀ s a, ok s a → ExpiresAlone s a ∨ Q .indeterminate)
    {s t : System Digest} (hc : Coherent rt s) (hl : Locks Q s) (hrun : Run (step rt) ok s t) :
    (Coherent rt t ∧ Locks Q t) ∧ Later s.db t.db ∧ ∀ id v v', s.db.view? id = some v →
      ¬Q v.state → t.db.view? id = some v' → v' = v := by
  induction hrun with
  | refl =>
      refine ⟨⟨hc, hl⟩, Std.Refl.refl (r := Later) _, fun id v v' hv _ hv' => ?_⟩
      rw [hv] at hv'
      exact (Option.some.inj hv').symm
  | tail hrun ha hs ih =>
      obtain ⟨⟨hct, hlt⟩, hlater, hkeep⟩ := ih
      obtain ⟨hcu, hl⟩ := hct.next hinj hs
      have he := step_effect hs
      refine ⟨⟨hcu, he.locks hinj hct hlt hpending (hok _ _ ha)⟩,
        IsTrans.trans (r := Later) _ _ _ hlater hl, fun id v v' hv hne hv' => ?_⟩
      have hid := (hc.origins.origin id v hv).1.trans_le hlater.nextId_le
      obtain ⟨u, hu, -⟩ := hl.view id v' hid hv'
      obtain rfl := hkeep id v u hv hne hu
      by_contra hchanged
      rcases hlt.write_state hu (he.write hu hv' hchanged) with hp | hq
      · exact hne (hp ▸ hpending)
      · exact hne hq

/-- In every run in which no replay expires a message while a delivery of it waits for the
provider, terminal send states and provider identifiers stay. -/
theorem Run.send_states_absorbing {config : Config} {now : Time} {s t : System Digest}
    (hinj : Function.Injective rt.hashSendRequest)
    (hs : Run (step rt) ExpiresAlone (.initial config now) s) (ht : Run (step rt) ExpiresAlone s t)
    {id : Uuid} {m m' : EmailMessage Digest} (hm : s.db.messages.get? id = some m)
    (hm' : t.db.messages.get? id = some m') :
    (m.state = .accepted ∨ m.state = .failed ∨ m.state = .indeterminate → m'.state = m.state) ∧
      ∀ resendEmailId, m.resendEmailId = some resendEmailId →
        m'.resendEmailId = some resendEmailId := by
  obtain ⟨⟨hc, hl⟩, -⟩ := Run.view_absorbing (Q := (· = .pending)) hinj rfl (fun _ _ h => .inl h)
    (coherent_initial config now) (locks_initial config now) hs
  obtain ⟨-, -, hkeep⟩ :=
    Run.view_absorbing (Q := (· = .pending)) hinj rfl (fun _ _ h => .inl h) hc hl ht
  have hv := Database.view?_of_get? hm
  have hsame : m.state ≠ .pending → m'.sendView = m.sendView := fun hne =>
    hkeep id _ _ hv hne (Database.view?_of_get? hm')
  refine ⟨fun hterminal => ?_, fun resendEmailId hid => ?_⟩
  · have hne : m.state ≠ .pending := by
      rcases hterminal with h | h | h <;> simp [h]
    exact congrArg SendView.state (hsame hne)
  · have hne : m.state ≠ .pending := fun hp => by
      have hnone := hc.origins.unsent id _ hv hp
      rw [EmailMessage.sendView_resendEmailId, hid] at hnone
      cases hnone
    exact (congrArg SendView.resendEmailId (hsame hne)).trans hid

namespace Reference

/-- A direct email whose handler stops before its call, and its replay just before the window
passes, up to its call. -/
def lateReplay : List (Action SendRequest) :=
  grants ++ submit 0 (direct false (js "s")) (js "k") ++
    [.crash 0, .tick (providerIdempotencySafetyMs.toNat - 1),
      .start 1 (.send (direct false (js "s")) (js "k")) {}, .run 1 {}, .run 1 {},
        .run 1 {}, .run 1 {}]

/-- Another replay just after the window has passed. -/
def expiringReplay : List (Action SendRequest) :=
  [.tick 2, .start 2 (.send (direct false (js "s")) (js "k")) {}, .run 2 {}, .run 2 {}, .run 2 {}]

/-- The call of the first replay succeeds. -/
def successfulCall : List (Action SendRequest) :=
  [.reach 1 (some [js "r"]) (.sent [js "r"]), .run 1 {}]

end Reference

/-- A message that is accepted before its window passes stays accepted. -/
theorem send_states_absorbing_reference :
    ∃ s t m m', Function.Injective Runtime.reference.hashSendRequest ∧
    Run (step .reference) ExpiresAlone .reference s ∧ Run (step .reference) ExpiresAlone s t ∧
      s.db.messages.get? 0 = some m ∧ t.db.messages.get? 0 = some m' ∧ m.state = .accepted ∧
        m'.state = m.state := by
  obtain ⟨s, t, hs, ht, hm, hm'⟩ : ∃ s t, Run (step .reference) ExpiresAlone .reference s ∧
      Run (step .reference) ExpiresAlone s t ∧
        (s.db.messages.get? 0).map EmailMessage.state = some .accepted ∧
          (t.db.messages.get? 0).isSome = true := Run.exists_of_exec_exec
    (Reference.lateReplay ++ Reference.successfulCall) Reference.expiringReplay.dropLast
    (by decide +kernel)
  obtain ⟨m, hm, hstate⟩ := Option.map_eq_some_iff.mp hm
  obtain ⟨m', hm'⟩ := Option.isSome_iff_exists.mp hm'
  exact ⟨s, t, m, m', Runtime.reference_injective, hs, ht, hm, hm', hstate,
    (Run.send_states_absorbing Runtime.reference_injective hs ht hm hm').1 (.inl hstate)⟩

/-- A replay expires the message of a delivery that waits for the provider, which accepts it. -/
theorem send_state_overwritten : ∃ s t, Reachable .reference s ∧ Run (step .reference) Always s t ∧
    (s.db.messages.get? 0).map EmailMessage.state = some .indeterminate ∧
      (t.db.messages.get? 0).map EmailMessage.state = some .accepted := by
  obtain ⟨s, t, hs, ht, hm⟩ : ∃ s t, Run (step .reference) Always .reference s ∧
      Run (step .reference) Always s t ∧
        (s.db.messages.get? 0).map EmailMessage.state = some .indeterminate ∧
          (t.db.messages.get? 0).map EmailMessage.state = some .accepted := Run.exists_of_exec_exec
    (Reference.lateReplay ++ Reference.expiringReplay) Reference.successfulCall (by decide +kernel)
  exact ⟨s, t, .of_run hs, ht, hm⟩

end ResendConversation
