import ResendConversation.Coherence

/-! # Calls

The ledger of the provider calls (`Calls`).  Every process that waits for a call is the only
one to do so, and has not observed it yet; an acceptance belongs to a call whose answer is not
a definite rejection, and an observed definite rejection is the provider's own answer. -/

namespace ResendConversation

open Foundation Tx

variable {Digest : Type} {rt : Runtime Digest}

/-! ### The ledger -/

/-- The call that a process waits for, with its key and its messages. -/
def Proc.awaits : Proc Digest → Option (Uuid × ProviderKey × List Uuid)
  | .send h =>
      match h.phase with
      | .deliver d (.calling m callId) => some (callId, singleSendKey m, [d.messageId])
      | _ => none
  | .batchDrain (.working batch (.calling callId)) =>
      some (callId, .conversationOutbox batch.id, batch.messageIds)
  | .entryDrain (.working _ _ entry (.calling callId)) =>
      some (callId, .attachmentOutbox entry.message.id, [entry.message.id])
  | _ => none

theorem Proc.awaits_eq_none {p : Proc Digest} (h : p.sends = false) : p.awaits = none := by
  cases p with
  | send h =>
      simp only [awaits]
      split
      next d m callId hphase => simp [sends, delivers, hphase] at h
      next => rfl
  | batchDrain w =>
      cases w with
      | working batch phase => simp [sends, Proc.batch] at h
      | returned result => rfl
  | entryDrain w =>
      cases w with
      | idle remaining result => rfl
      | working remaining result entry phase => simp [sends, Proc.entry] at h
      | returned result => rfl
  | receive => rfl
  | ingest => rfl
  | reaper => rfl
  | upload => rfl

structure Calls (s : System Digest) : Prop where
  drawn : ∀ call ∈ s.provider.calls, call.id < s.db.nextId
  waits : ∀ pid p callId key ids, s.Runs pid p → p.awaits = some (callId, key, ids) →
    ∃ call, s.provider.calls.get? callId = some call ∧ call.key = key ∧ call.messageIds = ids ∧
      call.observed = none
  separate : ∀ pid q p p' w w', s.Runs pid p → s.Runs q p' → p.awaits = some w →
    p'.awaits = some w' → w.1 = w'.1 → pid = q
  accepted : ∀ a ∈ s.provider.log, ∃ call answer,
    s.provider.calls.get? a.content.callId = some call ∧ call.key = a.key ∧
      call.messageIds = a.content.messageIds ∧ call.answer = some answer ∧
      isDefiniteRejection answer = false
  rejected : ∀ call ∈ s.provider.calls, ∀ o, call.observed = some o → isDefiniteRejection o = true →
    call.answer = some o

theorem calls_initial (config : Config) (now : Time) :
    Calls (System.initial config now : System Digest) := by
  refine ⟨?_, ?_, ?_, ?_, ?_⟩
  all_goals simp [System.initial, System.Runs, Provider.initial, Table.mem_def,
    Table.empty, Table.get?]

/-! ### The provider's steps -/

namespace Provider

theorem get?_place (p : Provider) (call : ProviderCall) (k : Uuid) :
    (p.place call).calls.get? k = if call.id = k then some call else p.calls.get? k := by
  simp [place]

theorem get?_observe (p : Provider) (callId : Uuid) (o : Observation) (k : Uuid) :
    (p.observe callId o).calls.get? k =
      (p.calls.get? k).map fun call =>
        if call.id = callId then { call with observed := some o } else call := by
  rw [observe, Table.get?_update]
  simp

/-- What a call does when it reaches the provider. -/
theorem reach_eq_some {p p' : Provider} {now : Time} {callId : Uuid}
    {accepted : Option (List JsString)} {answer : Observation}
    (h : p.reach now callId accepted answer = some p') :
    ∃ call, p.calls.get? callId = some call ∧ call.answer = none ∧
      p'.log = p.record now call accepted ∧
      (accepted.isSome → ¬Service.Remembers providerMemoryMs p.log call.key now ∧
        isDefiniteRejection answer = false) ∧
      ∀ k, p'.calls.get? k =
        if callId = k then some { call with answer := some answer } else p.calls.get? k := by
  unfold reach at h
  cases hcall : p.calls.get? callId with
  | none => simp [hcall] at h
  | some call =>
      simp only [hcall] at h
      split at h
      next hcond =>
        obtain rfl := Option.some.inj h
        refine ⟨call, rfl, hcond.1, rfl, hcond.2.2, fun k => ?_⟩
        rw [Table.get?_set, ← Table.key_of_get? hcall]
      next => cases h

end Provider

/-! ### Calls as they were placed -/

/-- The call without what the provider and its worker made of it. -/
def ProviderCall.placed (call : ProviderCall) : ProviderCall :=
  { call with answer := none, observed := none }

namespace Provider

theorem placed_same {p p' : Provider} (h : p' = p) :
    ∀ call ∈ p'.calls, ∃ call₀ ∈ p.calls, call₀.placed = call.placed :=
  fun call hcall => ⟨call, h ▸ hcall, rfl⟩

theorem get?_placed_observe (p : Provider) (callId : Uuid) (o : Observation) (k : Uuid) :
    ((p.observe callId o).calls.get? k).map ProviderCall.placed =
      (p.calls.get? k).map ProviderCall.placed := by
  rw [get?_observe, Option.map_map]
  congr 1
  funext call
  simp only [Function.comp_apply]
  split
  · rfl
  · rfl

theorem placed_observe (p : Provider) (callId : Uuid) (o : Observation) :
    ∀ call ∈ (p.observe callId o).calls, ∃ call₀ ∈ p.calls, call₀.placed = call.placed := by
  intro call hcall
  have hget := get?_placed_observe p callId o call.id
  rw [Table.get?_eq_some.mpr ⟨hcall, rfl⟩, Option.map_some] at hget
  obtain ⟨call₀, hcall₀, hplaced⟩ := Option.map_eq_some_iff.mp hget.symm
  exact ⟨call₀, Table.mem_of_get? hcall₀, hplaced⟩

theorem placed_reach {p p' : Provider} {now : Time} {callId : Uuid}
    {accepted : Option (List JsString)} {answer : Observation}
    (h : p.reach now callId accepted answer = some p') :
    ∀ call ∈ p'.calls, ∃ call₀ ∈ p.calls, call₀.placed = call.placed := by
  intro call hcall
  obtain ⟨call₀, hcall₀, -, -, -, hget⟩ := reach_eq_some h
  have hget := (hget call.id).symm.trans (Table.get?_eq_some.mpr ⟨hcall, rfl⟩)
  split at hget
  · obtain rfl := Option.some.inj hget
    exact ⟨call₀, Table.mem_of_get? hcall₀, rfl⟩
  · exact ⟨call, Table.mem_of_get? hget, rfl⟩

end Provider

/-- A step that neither calls nor observes. -/
theorem Calls.of_same_provider {s s' : System Digest} (h : Calls s)
    (hn : s.db.nextId ≤ s'.db.nextId) (hp : s'.provider = s.provider)
    (hruns : ∀ pid p w, s'.Runs pid p → p.awaits = some w → ∃ p₀, s.Runs pid p₀ ∧
      p₀.awaits = some w) :
    Calls s' where
  drawn := fun call hc => (h.drawn call (hp ▸ hc)).trans_le hn
  waits := by
    intro pid p callId key ids hr ha
    obtain ⟨p₀, hr₀, ha₀⟩ := hruns pid p _ hr ha
    rw [hp]
    exact h.waits pid p₀ callId key ids hr₀ ha₀
  separate := by
    intro pid q p p' w w' hr hr' ha ha' heq
    obtain ⟨p₀, hr₀, ha₀⟩ := hruns pid p w hr ha
    obtain ⟨p₁, hr₁, ha₁⟩ := hruns q p' w' hr' ha'
    exact h.separate pid q p₀ p₁ w w' hr₀ hr₁ ha₀ ha₁ heq
  accepted := hp ▸ h.accepted
  rejected := hp ▸ h.rejected

/-- A call reaches the provider. -/
theorem Calls.of_reach {s : System Digest} (h : Calls s) {callId : Uuid}
    {accepted : Option (List JsString)} {answer : Observation} {provider : Provider}
    (hreach : s.provider.reach s.now callId accepted answer = some provider) :
    Calls { s with provider := provider } := by
  obtain ⟨call, hcall, hnone, hlog, hopen, hget⟩ := Provider.reach_eq_some hreach
  have hold : ∀ k c', provider.calls.get? k = some c' → ∃ c, s.provider.calls.get? k = some c ∧
      c'.key = c.key ∧ c'.messageIds = c.messageIds ∧ c'.observed = c.observed ∧
      (c.answer = none ∨ c'.answer = c.answer) := by
    intro k c' hc'
    rw [hget] at hc'
    split at hc'
    next hk =>
      subst hk
      obtain rfl := Option.some.inj hc'
      exact ⟨call, hcall, rfl, rfl, rfl, .inl hnone⟩
    next => exact ⟨c', hc', rfl, rfl, rfl, .inr rfl⟩
  refine ⟨fun c' hc' => ?_, fun pid p k key ids hr ha => ?_, h.separate, fun a ha => ?_,
    fun c' hc' o ho hd => ?_⟩
  · obtain ⟨c, hc, -⟩ := hold _ c' (Table.mem_iff_get?.mp hc')
    rw [← Table.key_of_get? hc]
    exact h.drawn c (Table.mem_of_get? hc)
  · obtain ⟨c, hc, hkey, hids, hobs⟩ := h.waits pid p k key ids hr ha
    refine ⟨if callId = k then { call with answer := some answer } else c, ?_, ?_⟩
    · simp only [hget]
      split <;> simp [hc]
    · split
      next hk =>
        obtain rfl : call = c := Option.some.inj (hcall.symm.trans (hk ▸ hc))
        exact ⟨hkey, hids, hobs⟩
      next => exact ⟨hkey, hids, hobs⟩
  · change a ∈ provider.log at ha
    change ∃ c ans, provider.calls.get? a.content.callId = some c ∧ _
    rw [hlog] at ha
    have hnew : ∀ c, s.provider.calls.get? a.content.callId = some c → callId ≠ a.content.callId →
        provider.calls.get? a.content.callId = some c := fun c hc hne => by
          rw [hget, if_neg hne, hc]
    have hmem : a ∈ s.provider.log ∨ ∃ ids, accepted = some ids ∧
        a = ⟨call.key, s.now, ⟨call.id, call.messageIds, ids⟩⟩ := by
      cases accepted with
      | none => exact .inl ha
      | some ids =>
          rcases List.mem_append.mp ha with hold | hnew
          · exact .inl hold
          · exact .inr ⟨ids, rfl, List.mem_singleton.mp hnew⟩
    rcases hmem with hold | ⟨ids, rfl, rfl⟩
    · obtain ⟨c, ans, hc, hkey, hids, hans, hdef⟩ := h.accepted a hold
      refine ⟨c, ans, hnew c hc ?_, hkey, hids, hans, hdef⟩
      -- an accepted call has its answer
      rintro rfl
      obtain rfl : call = c := Option.some.inj (hcall.symm.trans hc)
      rw [hnone] at hans
      cases hans
    · refine ⟨{ call with answer := some answer }, answer, ?_, rfl, rfl, rfl, (hopen rfl).2⟩
      rw [hget, if_pos (Table.key_of_get? hcall).symm]
  · have hc := Table.mem_iff_get?.mp hc'
    obtain ⟨c, hc₀, -, -, hobs, hans⟩ := hold _ c' hc
    have hanswer := h.rejected c (Table.mem_of_get? hc₀) o (hobs ▸ ho) hd
    rcases hans with hans | hans
    · rw [hans] at hanswer
      cases hanswer
    · rw [hans, hanswer]

/-- A process places a call, and may wait for it. -/
theorem Calls.of_call {s : System Digest} (h : Calls s) {call : ProviderCall} {pid : ℕ}
    {p : Proc Digest} (hid : call.id = s.db.nextId) (hanswer : call.answer = none)
    (hobserved : call.observed = none)
    (hp : ∀ w, p.awaits = some w → w = (call.id, call.key, call.messageIds)) :
    Calls ((s.call call).become pid p) := by
  have hget : ∀ k, (s.call call).provider.calls.get? k =
      if call.id = k then some call else s.provider.calls.get? k := s.provider.get?_place call
  have hfresh : ∀ k c, s.provider.calls.get? k = some c → call.id ≠ k := by
    rintro k c hc rfl
    have hlt := h.drawn c (Table.mem_of_get? hc)
    rw [Table.key_of_get? hc, hid] at hlt
    exact lt_irrefl _ hlt
  have hmem : ∀ c ∈ (s.call call).provider.calls, c = call ∨ c ∈ s.provider.calls := by
    intro c hc
    rcases Table.mem_set.mp hc with rfl | ⟨hc, -⟩
    · exact .inl rfl
    · exact .inr hc
  have hcases : ∀ q p' w, ((s.call call).become pid p).Runs q p' → p'.awaits = some w →
      (q = pid ∧ w = (call.id, call.key, call.messageIds)) ∨ (s.Runs q p' ∧ w.1 ≠ call.id) := by
    intro q p' w hq hw
    rcases System.runs_become.mp hq with ⟨rfl, rfl⟩ | ⟨-, hold⟩
    · exact .inl ⟨rfl, hp w hw⟩
    · obtain ⟨c, hc, -⟩ := h.waits q p' w.1 w.2.1 w.2.2 hold hw
      exact .inr ⟨hold, (hfresh _ c hc).symm⟩
  refine ⟨fun c hc => ?_, fun q p' k key ids hr ha => ?_,
    fun q q' p₁ p₂ w w' hr hr' ha ha' heq => ?_, fun a ha => ?_, fun c hc o ho hd => ?_⟩
  · change c.id < s.db.nextId + 1
    rcases hmem c hc with rfl | hold
    · rw [hid]
      exact Nat.lt_succ_self _
    · exact (h.drawn c hold).trans (Nat.lt_succ_self _)
  · rcases hcases q p' _ hr ha with ⟨-, hw⟩ | ⟨hold, -⟩
    · cases hw
      exact ⟨call, (hget _).trans (if_pos rfl), rfl, rfl, hobserved⟩
    · obtain ⟨c, hc, hrest⟩ := h.waits q p' k key ids hold ha
      exact ⟨c, (hget k).trans ((if_neg (hfresh k c hc)).trans hc), hrest⟩
  · rcases hcases q p₁ w hr ha with ⟨rfl, rfl⟩ | ⟨hold, hne⟩
    · rcases hcases q' p₂ w' hr' ha' with ⟨rfl, -⟩ | ⟨-, hne'⟩
      · rfl
      · exact absurd heq.symm hne'
    · rcases hcases q' p₂ w' hr' ha' with ⟨rfl, rfl⟩ | ⟨hold', -⟩
      · exact absurd heq hne
      · exact h.separate q q' p₁ p₂ w w' hold hold' ha ha' heq
  · obtain ⟨c, ans, hc, hrest⟩ := h.accepted a ha
    exact ⟨c, ans, (hget _).trans ((if_neg (hfresh _ c hc)).trans hc), hrest⟩
  · rcases hmem c hc with rfl | hold
    · rw [hobserved] at ho
      cases ho
    · exact h.rejected c hold o ho hd

/-- A definite rejection is observed only as the provider's answer. -/
theorem Provider.answer_of_observation {p : Provider} {callId : Uuid}
    {lost : Option (JsString × JsString)} {o : Observation} (h : p.observation callId lost = some o)
    (hd : isDefiniteRejection o = true) {call : ProviderCall}
    (hcall : p.calls.get? callId = some call) :
    call.answer = some o := by
  unfold observation at h
  cases lost with
  | some error =>
      cases h
      simp [isDefiniteRejection] at hd
  | none => simpa [hcall] using h

/-- A process observes its call. -/
theorem Calls.of_observe {s s' : System Digest} (h : Calls s) {pid : ℕ} {p₀ p : Proc Digest}
    {callId : Uuid} {key : ProviderKey} {ids : List Uuid} {lost : Option (JsString × JsString)}
    {o : Observation} (hr : s.Runs pid p₀) (ha : p₀.awaits = some (callId, key, ids))
    (hobs : s.provider.observation callId lost = some o) (hn : s.db.nextId ≤ s'.db.nextId)
    (hp : s'.provider = s.provider.observe callId o) (hprocs : s'.procs = s.procs)
    (hidle : p.awaits = none) : Calls (s'.become pid p) := by
  have hget : ∀ k, s'.provider.calls.get? k = (s.provider.calls.get? k).map fun call =>
      if call.id = callId then { call with observed := some o } else call := fun k => by
    rw [hp, Provider.get?_observe]
  have hold : ∀ k c', s'.provider.calls.get? k = some c' → ∃ c, s.provider.calls.get? k = some c ∧
      c' = if c.id = callId then { c with observed := some o } else c := by
    intro k c' hc'
    rw [hget] at hc'
    obtain ⟨c, hc, rfl⟩ := Option.map_eq_some_iff.mp hc'
    exact ⟨c, hc, rfl⟩
  have hothers : ∀ q p' w, (s'.become pid p).Runs q p' → p'.awaits = some w →
      s.Runs q p' ∧ w.1 ≠ callId := by
    intro q p' w hq hw
    rcases System.runs_become.mp hq with ⟨-, rfl⟩ | ⟨hne, hq⟩
    · rw [hidle] at hw
      cases hw
    · have hrun : s.Runs q p' := by rwa [System.Runs, hprocs] at hq
      exact ⟨hrun, fun heq => hne (h.separate q pid p' p₀ w _ hrun hr hw ha heq)⟩
  refine ⟨fun c' hc' => ?_, fun q p' k key' ids' hq hw => ?_,
    fun q q' p₁ p₂ w w' hq hq' hw hw' heq => ?_, fun a hlog => ?_, fun c' hc' o' ho' hd => ?_⟩
  · obtain ⟨c, hc, -⟩ := hold _ c' (Table.mem_iff_get?.mp hc')
    rw [← Table.key_of_get? hc]
    exact (h.drawn c (Table.mem_of_get? hc)).trans_le hn
  · obtain ⟨hrun, hne⟩ := hothers q p' _ hq hw
    obtain ⟨c, hc, hrest⟩ := h.waits q p' k key' ids' hrun hw
    refine ⟨c, ?_, hrest⟩
    rw [System.become_provider, hget, hc, Option.map_some, Table.key_of_get? hc, if_neg hne]
  · obtain ⟨hrun, -⟩ := hothers q p₁ w hq hw
    obtain ⟨hrun', -⟩ := hothers q' p₂ w' hq' hw'
    exact h.separate q q' p₁ p₂ w w' hrun hrun' hw hw' heq
  · rw [System.become_provider, hp] at hlog ⊢
    obtain ⟨c, ans, hc, hkey, hids, hans, hdef⟩ := h.accepted a hlog
    refine ⟨_, ans, by rw [Provider.get?_observe, hc, Option.map_some], ?_⟩
    split
    · exact ⟨hkey, hids, hans, hdef⟩
    · exact ⟨hkey, hids, hans, hdef⟩
  · obtain ⟨c, hc, heq⟩ := hold _ c' (Table.mem_iff_get?.mp hc')
    have hid := Table.key_of_get? hc
    split at heq
    next hcall =>
      subst heq
      obtain rfl := Option.some.inj ho'
      have hcall' : s.provider.calls.get? callId = some c := by
        rw [← hcall, hid]
        exact hc
      change c.answer = some o
      exact Provider.answer_of_observation hobs hd hcall'
    next =>
      subst heq
      exact h.rejected c' (Table.mem_of_get? hc) o' ho' hd

/-! ### The steps -/

/-- Every step keeps the ledger in order. -/
theorem Effect.calls {s s' : System Digest} {a : Action Digest} (h : Calls s)
    (he : Effect rt s a s') : Calls s' := by
  cases he with
  | quiet passive provider leases objects now retires =>
      exact h.of_same_provider passive.nextId_le provider
        (System.kept_of_retires (fun _ => Proc.awaits_eq_none) fun pid p hp hs =>
          retires pid p hp (.inl hs))
  | filed background provider leases now retires =>
      exact h.of_same_provider background.nextId_le provider
        (System.kept_of_retires (fun _ => Proc.awaits_eq_none) retires)
  | reached callId accepted answer provider action reach eq =>
      subst eq
      exact h.of_reach reach
  | deleted c db' action deletion eq =>
      subst eq
      exact h.of_same_provider deletion.nextId_le rfl fun pid p w hp hw => ⟨p, hp, hw⟩
  | stored pid c handler reopened db' id p action runs reopens stores next eq =>
      subst eq
      obtain ⟨⟨v, hs⟩, -⟩ := stores
      refine h.of_same_provider (hs.nextId_le.trans hs.lt_nextId.le) rfl
        (System.kept_of_become rfl (.inl ?_))
      split at next
      next => exact Proc.awaits_eq_none next.1
      next => rw [next]; rfl
  | engaged pid c handler m action runs found hash sync eq =>
      subst eq
      exact h.of_same_provider le_rfl rfl (System.kept_of_become rfl (.inl rfl))
  | reopening pid c handler conversation action runs found topic eq =>
      subst eq
      exact h.of_same_provider le_rfl rfl (System.kept_of_become rfl (.inl rfl))
  | expiring pid c handler id action runs phase eq =>
      subst eq
      exact h.of_same_provider le_rfl rfl (System.kept_of_become rfl (.inl rfl))
  | resumed pid c handler m action runs phase found window eq =>
      subst eq
      exact h.of_same_provider le_rfl rfl (System.kept_of_become rfl (.inl rfl))
  | prepared pid c handler d attachments action runs phase eq =>
      subst eq
      exact h.of_same_provider le_rfl rfl (System.kept_of_become rfl (.inl rfl))
  | expired pid c handler id db' p action runs phase rewrite next eq =>
      subst eq
      exact h.of_same_provider rewrite.nextId_le rfl
        (System.kept_of_become rfl (.inl (Proc.awaits_eq_none next.1)))
  | called pid c handler d attachments m action runs phase free found pending eq =>
      subst eq
      refine h.of_call rfl rfl rfl fun w hw => ?_
      obtain rfl := Option.some.inj hw
      rw [syncCall, Table.key_of_get? found]
  | refused pid c handler d attachments m error db' p action runs phase free found pending cause
      rewrite next eq =>
      subst eq
      exact h.of_same_provider rewrite.nextId_le rfl
        (System.kept_of_become rfl (.inl (Proc.awaits_eq_none next.1)))
  | settled pid c handler d m callId observation db' p action runs phase waits observed
      rewrite next eq =>
      subst eq
      have hn : s.db.nextId ≤ db'.nextId := by
        rcases rewrite with rfl | rewrite
        · exact le_rfl
        · exact rewrite.nextId_le
      have ha : (Proc.send handler).awaits = some (callId, singleSendKey m, [d.messageId]) := by
        simp only [Proc.awaits, phase]
      exact h.of_observe runs ha observed hn rfl rfl (Proc.awaits_eq_none next.1)
  | batchSwept pid p next eq =>
      subst eq
      exact h.of_same_provider (Nat.le_succ _) rfl
        (System.kept_of_become rfl (.inl (Proc.awaits_eq_none next.1)))
  | batchClaimed pid c loaded db' p claim free next eq =>
      subst eq
      refine h.of_same_provider claim.frame.nextId_le rfl (System.kept_of_become rfl (.inl ?_))
      rw [next]
      split <;> rfl
  | batchSkipped pid c batch claimedAt decision action runs decided eq =>
      subst eq
      exact h.of_same_provider le_rfl rfl (System.kept_of_become rfl (.inl rfl))
  | batchCalled pid c batch claimedAt action runs window eq =>
      subst eq
      exact h.of_call rfl rfl rfl fun w hw => (Option.some.inj hw).symm
  | batchObserved pid c batch callId observation action runs observed eq =>
      subst eq
      exact h.of_observe runs rfl observed le_rfl rfl rfl rfl
  | batchFinalized pid c batch decision db' p action runs finalized next eq =>
      subst eq
      exact h.of_same_provider finalized.nextId_le rfl
        (System.kept_of_become rfl (.inl (Proc.awaits_eq_none next.1)))
  | batchRescheduled pid c batch decision db' p action runs rescheduled next eq =>
      subst eq
      exact h.of_same_provider rescheduled.frame.nextId_le rfl
        (System.kept_of_become rfl (.inl (Proc.awaits_eq_none next.1)))
  | entrySwept pid p next eq =>
      subst eq
      exact h.of_same_provider (Nat.le_succ _) rfl
        (System.kept_of_become rfl (.inl (Proc.awaits_eq_none next.1)))
  | entryClaimed pid c remaining result entry e db' action runs claim eq =>
      subst eq
      exact h.of_same_provider claim.frame.nextId_le rfl (System.kept_of_become rfl (.inl rfl))
  | entrySkipped pid c remaining result entry claimedAt decision action runs decided eq =>
      subst eq
      exact h.of_same_provider le_rfl rfl (System.kept_of_become rfl (.inl rfl))
  | entryCalled pid c remaining result entry claimedAt attachments action runs window eq =>
      subst eq
      exact h.of_call rfl rfl rfl fun w hw => (Option.some.inj hw).symm
  | entryObserved pid c remaining result entry callId observation action runs observed eq =>
      subst eq
      exact h.of_observe runs rfl observed le_rfl rfl rfl rfl
  | entryFinalized pid c remaining result entry decision db' p action runs finalized next eq =>
      subst eq
      exact h.of_same_provider finalized.nextId_le rfl
        (System.kept_of_become rfl (.inl (Proc.awaits_eq_none next.1)))
  | entryRescheduled pid c remaining result entry decision db' p action runs rescheduled next eq =>
      subst eq
      exact h.of_same_provider rescheduled.frame.nextId_le rfl
        (System.kept_of_become rfl (.inl (Proc.awaits_eq_none next.1)))
  | entryRedecided pid c remaining result entry decision name message action runs eq =>
      subst eq
      exact h.of_same_provider le_rfl rfl (System.kept_of_become rfl (.inl rfl))

theorem Reachable.calls [DecidableEq Digest] {s : System Digest} (h : Reachable rt s) :
    Calls s := by
  obtain ⟨config, now, hrun⟩ := h
  exact hrun.invariant (calls_initial config now) fun _ _ _ hI _ hs => (step_effect hs).calls hI

end ResendConversation
