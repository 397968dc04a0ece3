import ResendConversation.BatchPayloads
import ResendConversation.CallWindows

/-! # One email per message

No provider key is accepted twice when every call reaches the provider within an hour of the check
that preceded it: the check was made within 23 hours of the start of the window, and the provider
remembers an acceptance for 24.  A message is only ever carried under one key, so it results in at
most one email. -/

namespace ResendConversation

open Foundation Tx

variable {Digest : Type} {rt : Runtime Digest}

/-- The longest time from a check to the arrival of its call. -/
def arrivalMs : Time := 60 * 60 * 1000

/-- The call that an action takes to the provider. -/
def Action.arrives : Action Digest → Option Uuid
  | .reach callId _ _ => some callId
  | _ => none

/-- A call reaches the provider less than an hour after the claim or window check that preceded
it. -/
def OnTime (s : System Digest) (a : Action Digest) : Prop :=
  ∀ callId ∈ a.arrives, ∀ call ∈ s.provider.calls.get? callId, s.now < call.checkedAt + arrivalMs

instance (s : System Digest) (a : Action Digest) : Decidable (OnTime s a) :=
  inferInstanceAs (Decidable (∀ callId ∈ a.arrives, ∀ call ∈ s.provider.calls.get? callId,
    s.now < call.checkedAt + arrivalMs))

/-! ### The log -/

/-- Every key is accepted once, after the start of the window of its call. -/
structure AcceptedOnce (s : System Digest) : Prop where
  once : (s.provider.log.map Acceptance.key).Nodup
  after : ∀ a ∈ s.provider.log, ∀ call, s.provider.calls.get? a.content.callId = some call →
    call.windowStart ≤ a.at_

theorem acceptedOnce_initial (config : Config) (now : Time) :
    AcceptedOnce (System.initial config now : System Digest) := by
  constructor
  all_goals simp [System.initial, Provider.initial]

/-- A step in which no call reaches the provider. -/
theorem AcceptedOnce.of_kept {s s' : System Digest} (h : AcceptedOnce s) (hc : Calls s)
    (hlog : s'.provider.log = s.provider.log)
    (hcalls : ∀ k < s.db.nextId, (s'.provider.calls.get? k).map ProviderCall.placed =
      (s.provider.calls.get? k).map ProviderCall.placed) : AcceptedOnce s' where
  once := hlog ▸ h.once
  after := by
    intro a ha call' hcall'
    rw [hlog] at ha
    obtain ⟨call, answer, hcall, -⟩ := hc.accepted a ha
    have hdrawn := hc.drawn call (Table.mem_of_get? hcall)
    rw [Table.key_of_get? hcall] at hdrawn
    have hplaced := hcalls _ hdrawn
    rw [hcall, hcall', Option.map_some, Option.map_some, Option.some.injEq] at hplaced
    change call'.placed.windowStart ≤ a.at_
    rw [hplaced]
    exact h.after a ha call hcall

/-- A call that reaches the provider in time. -/
theorem AcceptedOnce.of_reach {s : System Digest} (h : AcceptedOnce s) (hc : Calls s)
    (hk : KeysUsed rt s) (ht : CallsInWindow s) {callId : Uuid} {accepted : Option (List JsString)}
    {answer : Observation} {p : Provider}
    (hreach : s.provider.reach s.now callId accepted answer = some p)
    (hontime : OnTime s (.reach callId accepted answer)) :
    AcceptedOnce { s with provider := p } := by
  obtain ⟨call, hcall, -, hlog, hfresh, hget⟩ := Provider.reach_eq_some hreach
  have hmem := Table.mem_of_get? hcall
  -- the call at the provider is the one that was placed
  have hstart : ∀ k c', p.calls.get? k = some c' → ∃ c, s.provider.calls.get? k = some c ∧
      c'.windowStart = c.windowStart := by
    intro k c' hc'
    rw [hget] at hc'
    split at hc'
    next heq =>
      obtain rfl := Option.some.inj hc'
      exact ⟨call, heq ▸ hcall, rfl⟩
    next => exact ⟨c', hc', rfl⟩
  have hold : ∀ a ∈ s.provider.log, ∀ c', p.calls.get? a.content.callId = some c' →
      c'.windowStart ≤ a.at_ := by
    intro a ha c' hc'
    obtain ⟨c, hc, heq⟩ := hstart _ c' hc'
    rw [heq]
    exact h.after a ha c hc
  cases accepted with
  | none =>
      refine ⟨?_, ?_⟩
      · rw [show p.log = s.provider.log from hlog]
        exact h.once
      · rw [show p.log = s.provider.log from hlog]
        exact hold
  | some ids =>
      have hlog : p.log =
        s.provider.log ++ [⟨call.key, s.now, ⟨call.id, call.messageIds, ids⟩⟩] := hlog
      have hwindow : ∀ b ∈ s.provider.log, b.key = call.key → s.now < b.at_ + providerMemoryMs := by
        intro b hb hkey
        obtain ⟨call', -, hcall', hkey', -⟩ := hc.accepted b hb
        have hmem' := Table.mem_of_get? hcall'
        have hsame : call'.windowStart = call.windowStart :=
          hk.window call'.use call.use (.inl ⟨call', hmem', rfl⟩) (.inl ⟨call, hmem, rfl⟩)
            (hkey'.trans hkey)
        have hafter : call.windowStart ≤ b.at_ := hsame ▸ h.after b hb call' hcall'
        have harrival : s.now < call.checkedAt + arrivalMs := hontime callId rfl call hcall
        have hchecked := (ht.calls call hmem).checked
        have hday : providerIdempotencySafetyMs + arrivalMs = providerMemoryMs := by decide
        calc s.now < call.checkedAt + arrivalMs := harrival
          _ < call.windowStart + providerIdempotencySafetyMs + arrivalMs :=
            Int.add_lt_add_right hchecked _
          _ = call.windowStart + providerMemoryMs := by rw [Int.add_assoc, hday]
          _ ≤ b.at_ + providerMemoryMs := Int.add_le_add_right hafter _
      refine ⟨?_, fun a ha c' hc' => ?_⟩
      · rw [hlog]
        exact Service.nodup_accept h.once (hfresh rfl).1 hwindow
      · rw [hlog, List.mem_append, List.mem_singleton] at ha
        rcases ha with ha | rfl
        · exact hold a ha c' hc'
        · obtain ⟨c, hc, heq⟩ := hstart _ c' hc'
          rw [heq]
          exact (ht.calls c (Table.mem_of_get? hc)).started

/-! ### The steps -/

/-- A step takes a call to the provider, or leaves the log and the calls there as they are. -/
theorem Effect.provider_kept [DecidableEq Digest] {s s' : System Digest} {a : Action Digest}
    (he : Effect rt s a s') :
    (∃ callId accepted answer p, a = .reach callId accepted answer ∧
      s.provider.reach s.now callId accepted answer = some p ∧ s' = { s with provider := p }) ∨
    (s'.provider.log = s.provider.log ∧ ∀ k < s.db.nextId,
      (s'.provider.calls.get? k).map ProviderCall.placed =
        (s.provider.calls.get? k).map ProviderCall.placed) := by
  have hsame : s.provider.log = s.provider.log ∧ ∀ k < s.db.nextId,
      (s.provider.calls.get? k).map ProviderCall.placed =
        (s.provider.calls.get? k).map ProviderCall.placed :=
    ⟨rfl, fun _ _ => rfl⟩
  have hplace : ∀ {call : ProviderCall}, call.id = s.db.nextId →
      (s.provider.place call).log = s.provider.log ∧ ∀ k < s.db.nextId,
        ((s.provider.place call).calls.get? k).map ProviderCall.placed =
          (s.provider.calls.get? k).map ProviderCall.placed := by
    intro call hid
    refine ⟨rfl, fun k hk => ?_⟩
    rw [Provider.get?_place, if_neg (hid ▸ hk.ne')]
  have hobserve : ∀ {callId o}, (s.provider.observe callId o).log = s.provider.log ∧
      ∀ k < s.db.nextId,
      ((s.provider.observe callId o).calls.get? k).map ProviderCall.placed =
        (s.provider.calls.get? k).map ProviderCall.placed :=
    ⟨rfl, fun k _ => s.provider.get?_placed_observe _ _ k⟩
  cases he with
  | quiet passive provider =>
      rw [provider]
      exact .inr hsame
  | filed background provider =>
      rw [provider]
      exact .inr hsame
  | reached callId accepted answer provider action reach eq =>
      exact .inl ⟨callId, accepted, answer, provider, action, reach, eq⟩
  | called pid c handler d attachments m action runs phase free found pending eq =>
      subst eq
      exact .inr (hplace rfl)
  | settled pid c handler d m callId observation db' p action runs phase waits observed
      rewrite next eq =>
      subst eq
      exact .inr hobserve
  | batchCalled pid c batch claimedAt action runs window eq =>
      subst eq
      exact .inr (hplace rfl)
  | batchObserved pid c batch callId observation action runs observed eq =>
      subst eq
      exact .inr hobserve
  | entryCalled pid c remaining result entry claimedAt attachments action runs window eq =>
      subst eq
      exact .inr (hplace rfl)
  | entryObserved pid c remaining result entry callId observation action runs observed eq =>
      subst eq
      exact .inr hobserve
  | _ =>
      next eq =>
        subst eq
        exact .inr hsame

/-- The invariants of the calls and of the acceptances. -/
structure SentOnce (rt : Runtime Digest) (s : System Digest) : Prop where
  coherent : Coherent rt s
  ledger : Calls s
  keys : KeysUsed rt s
  windows : CallsInWindow s
  accepted : AcceptedOnce s

theorem sentOnce_initial (config : Config) (now : Time) :
    SentOnce rt (System.initial config now : System Digest) :=
  ⟨coherent_initial config now, calls_initial config now, keysUsed_initial config now,
    callsInWindow_initial config now, acceptedOnce_initial config now⟩

/-- Every step in which calls reach the provider in time keeps the invariants. -/
theorem Effect.sentOnce [DecidableEq Digest] {s s' : System Digest} {a : Action Digest}
    (hinj : Function.Injective rt.hashSendRequest) (h : SentOnce rt s) (ha : OnTime s a)
    (he : Effect rt s a s') :
    SentOnce rt s' where
  coherent := (he.coherent hinj h.coherent).1
  ledger := he.calls h.ledger
  keys := he.keysUsed hinj h.coherent h.keys
  windows := he.callsInWindow hinj h.coherent h.windows
  accepted := by
    rcases he.provider_kept with ⟨callId, accepted, answer, p, rfl, hreach, rfl⟩ | ⟨hlog, hcalls⟩
    · exact h.accepted.of_reach h.ledger h.keys h.windows hreach ha
    · exact h.accepted.of_kept h.ledger hlog hcalls

/-- The messages of an acceptance are those of a call under its key. -/
theorem SentOnce.exists_use {s : System Digest} (h : SentOnce rt s)
    {a : Acceptance ProviderKey AcceptedEmails} (ha : a ∈ s.provider.log) :
    ∃ u, s.Uses u ∧ u.key = a.key ∧ u.ids = a.content.messageIds := by
  obtain ⟨call, -, hcall, hkey, hids, -⟩ := h.ledger.accepted a ha
  exact ⟨call.use, .inl ⟨call, Table.mem_of_get? hcall, rfl⟩, hkey, hids⟩

/-- In every run whose calls reach the provider in time, a message results in at most one email. -/
theorem Run.emailsFor_le_one [DecidableEq Digest] (hinj : Function.Injective rt.hashSendRequest)
    {config : Config} {now : Time} {s : System Digest}
    (hrun : Run (step rt) OnTime (.initial config now) s) (id : Uuid) :
    s.provider.emailsFor id ≤ 1 := by
  have h : SentOnce rt s :=
    hrun.invariant (I := fun s => SentOnce rt s) (sentOnce_initial config now)
    fun t a u ht hontime hstep => (step_effect hstep).sentOnce hinj ht hontime
  refine Service.sum_count_le_one AcceptedEmails.messageIds h.accepted.once (fun a ha => ?_)
    (fun a ha b hb i hia hib => ?_) id
  · obtain ⟨u, hu, -, hids⟩ := h.exists_use ha
    exact hids ▸ (h.keys.valid u hu).nodup
  · obtain ⟨u, hu, hkey, hids⟩ := h.exists_use ha
    obtain ⟨u', hu', hkey', hids'⟩ := h.exists_use hb
    rw [← hkey, ← hkey']
    exact h.keys.carrier u u' hu hu' i (hids ▸ hia) (hids' ▸ hib)

namespace Reference

/-- The answer to a batch of two. -/
def bothSent : Observation := .sent [js "r1", js "r2"]

/-- A message that two calls carry, the first of which was accepted after its worker lost it. -/
def acceptedOnceCalledTwice (s : System SendRequest) : Bool :=
  s.provider.calls.rows.countP (fun call => call.messageIds.contains 2) == 2 &&
    s.provider.emailsFor 2 == 1

end Reference

theorem emailsFor_le_one_reference : ∃ s : System SendRequest,
    s.provider.calls.rows.countP (fun call => call.messageIds.contains 2) = 2 ∧
      s.provider.emailsFor 2 ≤ 1 := by
  obtain ⟨s, hrun, hcalled⟩ : ∃ s, Run (step .reference) OnTime .reference s ∧
      Reference.acceptedOnceCalledTwice s = true :=
    Run.exists_of_exec
      (Reference.lostBatch ++ .reach 6 (some [js "r1", js "r2"]) Reference.bothSent ::
      Reference.nextAttempt ++ [.reach 8 none Reference.bothSent]) (by decide +kernel)
  rw [Reference.acceptedOnceCalledTwice, Bool.and_eq_true, beq_iff_eq] at hcalled
  exact ⟨s, hcalled.1, Run.emailsFor_le_one Runtime.reference_injective hrun 2⟩

/-! ### Calls for one message -/

/-- However they interleave, all calls for a message use one key and measure their windows from one
time, and the check before each of them was made within 23 hours of that time. -/
theorem Reachable.one_window [DecidableEq Digest] (hinj : Function.Injective rt.hashSendRequest)
    {s : System Digest} (h : Reachable rt s) {call call' : ProviderCall}
    (hcall : call ∈ s.provider.calls) (hcall' : call' ∈ s.provider.calls) {id : Uuid}
    (hid : id ∈ call.messageIds) (hid' : id ∈ call'.messageIds) :
    call.key = call'.key ∧ call.windowStart = call'.windowStart ∧ call.windowStart ≤ s.now ∧
      call.checkedAt < call.windowStart + providerIdempotencySafetyMs := by
  obtain ⟨config, now, hrun⟩ := h
  have hinvariant : Coherent rt s ∧ KeysUsed rt s ∧ CallsInWindow s :=
    hrun.invariant (I := fun s => Coherent rt s ∧ KeysUsed rt s ∧ CallsInWindow s)
      ⟨coherent_initial config now, keysUsed_initial config now, callsInWindow_initial config now⟩
      fun t a u ht _ hstep =>
        have he := step_effect hstep
        ⟨(he.coherent hinj ht.1).1, he.keysUsed hinj ht.1 ht.2.1, he.callsInWindow hinj ht.1 ht.2.2⟩
  obtain ⟨-, hkeys, hwindows⟩ := hinvariant
  have huse : s.Uses call.use := .inl ⟨call, hcall, rfl⟩
  have huse' : s.Uses call'.use := .inl ⟨call', hcall', rfl⟩
  have hkey : call.key = call'.key := hkeys.carrier call.use call'.use huse huse' id hid hid'
  exact ⟨hkey, hkeys.window call.use call'.use huse huse' hkey, (hwindows.calls call hcall).started,
    (hwindows.calls call hcall).checked⟩

/-- Two attempts on one batch, a minute apart. -/
theorem one_window_reference : ∃ s : System SendRequest, Reachable .reference s ∧
    ∃ call ∈ s.provider.calls, ∃ call' ∈ s.provider.calls,
      call.checkedAt < call'.checkedAt ∧ call.key = call'.key ∧
        call.windowStart = call'.windowStart := by
  obtain ⟨s, hrun, htwice⟩ : ∃ s, Run (step .reference) Always .reference s ∧
      (s.provider.calls.rows.any fun call => s.provider.calls.rows.any fun call' =>
        call.messageIds.contains 2 && call'.messageIds.contains 2 &&
          decide (call.checkedAt < call'.checkedAt)) = true :=
    Run.exists_of_exec (Reference.lostBatch ++ Reference.nextAttempt) (by decide +kernel)
  obtain ⟨call, hcall, htwice⟩ := List.any_eq_true.mp htwice
  obtain ⟨call', hcall', htwice⟩ := List.any_eq_true.mp htwice
  rw [Bool.and_eq_true, Bool.and_eq_true, List.contains_iff_mem, List.contains_iff_mem,
    decide_eq_true_eq] at htwice
  obtain ⟨⟨hid, hid'⟩, hlater⟩ := htwice
  have hreach : Reachable .reference s := .of_run hrun
  obtain ⟨hkey, hstart, -⟩ := hreach.one_window Runtime.reference_injective hcall hcall' hid hid'
  exact ⟨s, hreach, call, hcall, call', hcall', hlater, hkey, hstart⟩

end ResendConversation
