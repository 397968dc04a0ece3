import ResendConversation.ReplyForest
import ResendConversation.Succession

/-! # Terminated conversations

The automatic transitions leave a TERMINATED conversation alone, and a merge with one of them
ends TERMINATED.  A reopening writes the state without that guard: it is the one step, apart
from an operator's, that moves a TERMINATED conversation (`Reachable.terminated_stays_iff`). -/

namespace ResendConversation

open Foundation Tx

variable {Digest : Type} {lower : JsString → JsString} {rt : Runtime Digest} {s s' : System Digest}
  {a : Action Digest}

/-- Every TERMINATED conversation stays so, or went into a TERMINATED one that now holds its
messages. -/
def TerminatedStays (db db' : Database Digest) : Prop :=
  ∀ c ∈ db.conversations, c.state = .terminated → ∃ c' ∈ db'.conversations, c'.state = .terminated ∧
    (c'.id ≠ c.id → db'.conversations.get? c.id = none) ∧
    ∀ m ∈ db.messages, m.conversationId = some c.id →
      ∃ m' ∈ db'.messages, m'.id = m.id ∧ m'.conversationId = some c'.id

/-- The transaction of a reopening commits for the conversation: the identities of the request
are allowed, its Reply-To base fits, and every message of the conversation failed. -/
def Reopens (rt : Runtime Digest) (s : System Digest) (a : Action Digest) (c : Uuid) : Prop :=
  ∃ pid choice h conversation queued value id db', a = .run pid choice ∧ s.Runs pid (.send h) ∧
    h.phase = .reopenTransact conversation ∧ h.request = .opening queued value ∧
      conversation.id = c ∧
    reopenConversation (h.context rt s choice) value conversation s.db = .ok (some id, db')

/-! ### Events -/

/-- A row that is TERMINATED is succeeded by one that is. -/
def Terminates (_ : Bool) (row row' : ConversationView) : Prop :=
  row.state = .terminated → row'.state = .terminated

instance : Succession Terminates where
  refl _ := id
  comp h h' := h' ∘ h

theorem ConversationView.merge_terminated {target row : ConversationView}
    {sources : List ConversationView} (h : row ∈ target :: sources)
    (hstate : row.state = .terminated) :
    (target.merge sources).state = .terminated := by
  have hany : (target :: sources).any (fun row => row.state == .terminated) = true :=
    List.any_eq_true.mpr ⟨row, h, by simp [hstate]⟩
  simp only [merge, mergePrecedence, List.find?_cons, hany]
  rfl

/-- The events that do not touch a TERMINATED conversation. -/
def ThreadEvent.IsGuarded : ThreadEvent → Prop
  | .reopened .. | .overridden .. | .deleted .. => False
  | _ => True

theorem ThreadEvent.IsMail.isGuarded {e : ThreadEvent} (h : e.IsMail) : e.IsGuarded := by
  cases e <;> trivial

theorem ThreadEvent.IsAssignment.isGuarded {e : ThreadEvent} (h : e.IsAssignment) :
    e.IsGuarded := by
  cases e <;> trivial

theorem Threads.respects_terminates {t : Threads} {e : ThreadEvent} (he : t.Enabled lower e)
    (hguarded : e.IsGuarded) : t.Respects Terminates e := by
  cases e with
  | merged target sources =>
      refine ⟨stays_merged fun row _ => ConversationView.merge_terminated List.mem_cons_self,
        absorbed_merged he fun row _ c hc source hsource => ?_⟩
      exact ConversationView.merge_terminated
        (List.mem_cons_of_mem _ (Threads.mem_rows.mpr ⟨c, hc, hsource⟩))
  | turned c state =>
      obtain ⟨old, hold, hstate⟩ := he
      refine .of_stays nofun (stays_onConversation fun row hrow hterminated => ?_)
      obtain rfl : old = row := Option.some.inj (hold.symm.trans hrow)
      exact absurd hterminated hstate
  | begun c row => exact .of_stays nofun (stays_begun he)
  | promoted c base => exact .of_stays nofun (stays_onConversation fun _ _ => id)
  | assigned c topic => exact .of_stays nofun (stays_onConversation fun _ _ => id)
  | drawn n => exact .of_stays nofun (stays_of_eq rfl)
  | stored id v => exact .of_stays nofun (stays_of_eq rfl)
  | identified id mid => exact .of_stays nofun (stays_of_eq rfl)
  | adopted p children => exact .of_stays nofun (stays_of_eq rfl)
  | reopened c participant base => exact hguarded.elim
  | overridden c state => exact hguarded.elim
  | deleted c => exact hguarded.elim

/-- Guarded events keep a TERMINATED conversation. -/
theorem Threads.inherits_of_guarded {t t' : Threads} {P : ThreadEvent → Prop}
    (h : (threading lower).Explains P t t') (hP : ∀ e, P e → e.IsGuarded) (hdrawn : t.Drawn) :
    t.Inherits Terminates t' := by
  refine inherits_of_explains (I := fun _ => True) h hdrawn trivial fun t e he _ henabled => ?_
  refine ⟨trivial, ?_, respects_terminates henabled (hP e he)⟩
  rintro d rfl
  exact hP _ he

/-! ### Steps -/

theorem Threads.Inherits.terminatedStays {db db' : Database Digest} (hs : db.Sound)
    (h : db.threads.Inherits Terminates db'.threads) : TerminatedStays db db' := by
  intro c hc hstate
  have hget := Table.mem_iff_get?.mp hc
  obtain ⟨c', row', hheir⟩ :=
    h.heir c.id c.view (hs.conversationId_lt c hc) (by simp [Database.threads, hget])
  obtain ⟨conversation, hget', rfl⟩ := Option.map_eq_some_iff.mp hheir.found
  obtain rfl := Table.key_of_get? hget'
  refine ⟨conversation, Table.mem_of_get? hget', hheir.succeeds hstate, fun hne => ?_,
    fun m hm hmc => ?_⟩
  · simpa [Database.threads] using hheir.gone hne
  · obtain ⟨v', hv', hc'⟩ := hheir.messages m.id m.threadView
      (EmailMessage.threadView_of_get? (Table.mem_iff_get?.mp hm)) hmc
    obtain ⟨m', hm', rfl⟩ := Option.map_eq_some_iff.mp hv'
    exact ⟨m', Table.mem_of_get? hm', Table.key_of_get? hm', hc'⟩

/-- The reopening that does not commit with a message changes nothing. -/
theorem SendHandler.reopenTransact_db {h : SendHandler Digest} {pid : ℕ}
    {conversation : EmailConversation} {c : Choice Digest}
    (hstep : h.reopenTransact rt s pid conversation c = some s') :
    s'.db = s.db ∨ ∃ queued value id db', h.request = .opening queued value ∧
      reopenConversation (h.context rt s c) value conversation s.db = .ok (some id, db') := by
  unfold reopenTransact at hstep
  split at hstep
  next queued value hrequest =>
    dsimp only at hstep
    rcases s.transact_cases (reopenConversation (h.context rt s c) value conversation) with
      ⟨stored, db', hx, heq⟩ | ⟨e, heq⟩
    · rw [heq] at hstep
      cases stored with
      | none =>
          cases hstep
          exact .inl (reopenConversation_none hx)
      | some id => exact .inr ⟨queued, value, id, db', hrequest, hx⟩
    · rw [heq] at hstep
      cases hstep
      exact .inl rfl
  · cases hstep

theorem still_appendIntentEvents (ctx : SendContext Digest) (conversationId messageId : Uuid)
    (stateBefore : ConversationState) (stateChanged : Bool) :
    Preserves Still (appendIntentEvents ctx conversationId messageId stateBefore stateChanged) :=
  .bind (still_appendConversationEvent _ _) fun _ =>
    .ite (.bind (still_appendConversationEvent _ _) fun _ => .pure _) (.pure _)

/-- The state after a reopening. -/
theorem reopenConversation_state {ctx : SendContext Digest} {value : CreateConversationV2Input}
    {conversation : EmailConversation} {db db' : Database Digest} {id : Uuid}
    (h : reopenConversation ctx value conversation db = .ok (some id, db')) :
    ∃ row, db'.threads.conversations conversation.id = some row ∧
      row.state = .awaitingParticipant := by
  simp only [reopenConversation, findConversationOrThrow, bind_eq_ok, get_eq_ok, ensure_eq_ok,
    orThrow_eq_ok] at h
  obtain ⟨current, _, ⟨_, _, ⟨rfl, rfl⟩, hcurrent, rfl⟩, _, db₁, h₁, _, _, ⟨-, rfl⟩, _, _,
    ⟨-, rfl⟩, _, _, ⟨rfl, rfl⟩, h⟩ := h
  obtain rfl := lockAllowedEmailIdentities_eq_ok h₁
  split at h
  · simp [pure_eq_ok] at h
  · simp only [bind_eq_ok, orThrow_eq_ok, pure_eq_ok, Option.some.injEq] at h
    obtain ⟨_, db₂, h₂, r, _, ⟨-, rfl⟩, x, db₃, h₃, _, db₄, h₄, _, db₅, h₅, rfl, rfl⟩ := h
    have hcreated := createOutbound_threads (fun _ => rfl) h₃
    have hclaimed := still_claimAttachmentsForMessage _ _ _ h₄
    have hintent := still_appendIntentEvents _ _ _ _ _ h₅
    obtain ⟨-, heq₂⟩ := updateConversation_eq_ok h₂
    have hsame : db₅.threads.conversations = db₂.threads.conversations := by
      rw [hintent.threads, hclaimed.threads, hcreated.after]
      rfl
    have ht₂ : db₂.threads = db₁.threads.apply
        (.reopened conversation.id value.participant.email value.message.replyTo.address) := by
      rw [heq₂]
      exact threads_updateConversation fun _ => rfl
    refine ⟨{ current.view with
      apiVersion := some .v2
      participantAddress := value.participant.email
      replyToBaseAddress := some value.message.replyTo.address
      replyToRequiresAllowlist := true
      state := .awaitingParticipant }, ?_, rfl⟩
    rw [hsame, ht₂]
    simp [Threads.apply, Threads.onConversation, Database.threads, hcurrent]

/-- A step that reopens no TERMINATED conversation keeps them. -/
theorem Threading.terminates (h : Threading rt s a s') (hdrawn : s.db.threads.Drawn)
    (hstate : ∀ id state, a ≠ .operator (.setConversationState id state))
    (hdelete : ∀ id, a ≠ .operator (.deleteConversation id))
    (hreopens : ∀ pid c h conversation, a = .run pid c → s.Runs pid (.send h) →
      h.phase = .reopenTransact conversation →
        ∀ row, s.db.threads.conversations conversation.id = some row → row.state ≠ .terminated) :
    s.db.threads.Inherits Terminates s'.db.threads := by
  have hmail := fun e (he : ThreadEvent.IsMail e) => he.isGuarded
  cases h with
  | plain events =>
      exact Threads.inherits_of_guarded events.woven (fun _ he => he.isMail.isGuarded) hdrawn
  | projected pid c h email m action runs phase commits projection =>
      exact Threads.inherits_of_guarded (woven_projectInboundEmail _ _ _ _ _ _ _ projection)
        hmail hdrawn
  | recorded pid c p id mid createdAt m action runs records retrieved recording =>
      obtain ⟨_, _, _, hrecorded⟩ := recordOutboundInternetMessageId_threads recording
      exact Threads.inherits_of_guarded hrecorded.explained hmail hdrawn
  | reopened pid c h conversation participant base action runs phase enabled requested events =>
      have hkeeps := hreopens pid c h conversation action runs phase
      have hrespects : s.db.threads.Respects Terminates
          (.reopened conversation.id participant base) :=
        .of_stays nofun (Threads.stays_onConversation fun row hrow hterminated =>
          absurd hterminated (hkeeps row hrow))
      exact IsTrans.trans _ _ _ (Threads.inherits_apply hdrawn enabled nofun hrespects)
        (Threads.inherits_of_guarded events (fun _ he => he.isMail.isGuarded)
          (hdrawn.apply enabled))
  | assigned id topic title action events =>
      exact Threads.inherits_of_guarded events.woven (fun _ he => he.isGuarded) hdrawn
  | overridden id state action events => exact absurd action (hstate id state)
  | deleted id action events => exact absurd action (hdelete id)

theorem reopenTransact_of_step [DecidableEq Digest] {pid : ℕ} {c : Choice Digest}
    {h : SendHandler Digest} {conversation : EmailConversation} (hruns : s.Runs pid (.send h))
    (hphase : h.phase = .reopenTransact conversation) (hstep : step rt s (.run pid c) = some s') :
    h.reopenTransact rt s pid conversation c = some s' := by
  simp only [step, Option.bind_eq_some_iff] at hstep
  obtain ⟨⟨q, p⟩, hp, hstep⟩ := hstep
  rw [hruns] at hp
  cases hp
  simpa only [runProc, SendHandler.step, hphase] using hstep

/-- In every reachable state, a step other than an operator's state change or deletion keeps the
TERMINATED conversations exactly if it reopens none of them. -/
theorem Reachable.terminated_stays_iff [DecidableEq Digest] (h : Reachable rt s)
    (hstep : step rt s a = some s')
    (hstate : ∀ id state, a ≠ .operator (.setConversationState id state))
    (hdelete : ∀ id, a ≠ .operator (.deleteConversation id)) :
    TerminatedStays s.db s'.db ↔ ∀ c ∈ s.db.conversations, c.state = .terminated →
      ¬Reopens rt s a c.id := by
  obtain ⟨hthreading, -⟩ := h.threaded.step hstep
  have hdrawn := h.threaded.sound.drawn
  constructor
  · -- the reopened conversation is not TERMINATED any more
    rintro hstays c hc hterminated ⟨pid, choice, h, conversation, queued, value, id, db', rfl,
      hruns, hphase, hrequest, hid, hx⟩
    have hdb : s'.db = db' := by
      have hstep' := reopenTransact_of_step hruns hphase hstep
      unfold SendHandler.reopenTransact at hstep'
      rw [hrequest] at hstep'
      dsimp only at hstep'
      rw [System.transact, execute_of_ok hx] at hstep'
      cases hstep'
      rfl
    obtain ⟨row, hrow, hawaiting⟩ := reopenConversation_state hx
    rw [hid, ← hdb] at hrow
    obtain ⟨c', hc', hstill, hgone, -⟩ := hstays c hc hterminated
    obtain ⟨found, hfound, rfl⟩ := Option.map_eq_some_iff.mp hrow
    have hsame : c'.id = c.id := by
      by_contra hne
      rw [hgone hne] at hfound
      cases hfound
    rw [← hsame, Table.mem_iff_get?.mp hc'] at hfound
    cases hfound
    exact absurd (hstill.symm.trans hawaiting) (by decide)
  · intro hnone
    by_cases hsame : s'.db = s.db
    · rw [hsame]
      exact Threads.Inherits.terminatedStays h.threaded.sound (Std.Refl.refl s.db.threads)
    · refine Threads.Inherits.terminatedStays h.threaded.sound
        (hthreading.terminates hdrawn hstate hdelete ?_)
      rintro pid c h conversation rfl hruns hphase row hrow hterminated
      have hstep' := reopenTransact_of_step hruns hphase hstep
      obtain ⟨found, hfound, rfl⟩ := Option.map_eq_some_iff.mp hrow
      rcases SendHandler.reopenTransact_db hstep' with heq | ⟨queued, value, id, db', hrequest, hx⟩
      · exact hsame heq
      · exact hnone found (Table.mem_of_get? hfound) hterminated
          ⟨pid, c, h, conversation, queued, value, id, db', rfl, hruns, hphase, hrequest,
            (Table.key_of_get? hfound).symm, hx⟩

namespace Reference

/-- An email whose conversation an operator ends, and a reply to it before its projection. -/
def replyToTerminated : List (Action SendRequest) :=
  receive 0 (js "1") (js "1") (mail (js "<a>") none) ++
    [.operator (.setConversationState 1 .terminated)] ++
    (receive 1 (js "2") (js "2") (mail (js "<b>") (some (js "<a>")))).dropLast

/-- An opening that the provider rejects, in a conversation that an operator ends, and another
opening of the topic before its reopening. -/
def reopenTerminated : List (Action SendRequest) :=
  grants ++ submit 0 (opening false (js "e")) (js "k") ++
    [.run 0 {}, .run 0 {}, .reach 3 none (.threw (.api ⟨400, none⟩)), .run 0 {},
      .operator (.setConversationState 0 .terminated),
      .start 1 (.send (opening false (js "e")) (js "l")) {}] ++ List.replicate 5 (.run 1 {})

/-- The state of a conversation. -/
def stateOf (s : System SendRequest) (c : Uuid) : Option ConversationState :=
  (s.db.conversations.get? c).map EmailConversation.state

/-- Whether the process handles a received email. -/
def receives (s : System SendRequest) (pid : ℕ) : Bool :=
  match s.procs.get? pid with
  | some (_, .receive _) => true
  | _ => false

end Reference

/-- A reply is projected into a TERMINATED conversation. -/
theorem terminated_stays_reference : ∃ s s', Reachable .reference s ∧
    step .reference s (.run 1 {}) = some s' ∧ Reference.stateOf s 1 = some .terminated ∧
      (s'.db.messages.get? 5).isSome ∧ TerminatedStays s.db s'.db := by
  obtain ⟨s, s', hs, hstep, hstate, hreceives, hmessage⟩ : ∃ s s',
      Run (step .reference) Always .reference s ∧ step .reference s (.run 1 {}) = some s' ∧
        Reference.stateOf s 1 = some .terminated ∧ Reference.receives s 1 = true ∧
          (s'.db.messages.get? 5).isSome :=
            Run.exists_of_exec_step Reference.replyToTerminated (.run 1 {})
    (by decide +kernel)
  refine ⟨s, s', .of_run hs, hstep, hstate, hmessage, ?_⟩
  refine ((Reachable.of_run hs).terminated_stays_iff hstep nofun nofun).mpr ?_
  rintro c - - ⟨pid, choice, h, conversation, queued, value, id, db', haction, hruns, -⟩
  cases haction
  unfold Reference.receives at hreceives
  rw [hruns] at hreceives
  cases hreceives

/-- A new opening of its topic takes a conversation that an operator ended out of TERMINATED. -/
theorem terminated_reopened : ∃ s s', Reachable .reference s ∧
    step .reference s (.run 1 {}) = some s' ∧ ¬TerminatedStays s.db s'.db := by
  obtain ⟨s, s', hs, hstep, hstate, hafter⟩ : ∃ s s',
      Run (step .reference) Always .reference s ∧ step .reference s (.run 1 {}) = some s' ∧
        Reference.stateOf s 0 = some .terminated ∧
          Reference.stateOf s' 0 = some .awaitingParticipant :=
    Run.exists_of_exec_step Reference.reopenTerminated (.run 1 {}) (by decide +kernel)
  refine ⟨s, s', .of_run hs, hstep, fun hstays => ?_⟩
  obtain ⟨c, hc, hterminated⟩ := Option.map_eq_some_iff.mp hstate
  obtain ⟨d, hd, hawaiting⟩ := Option.map_eq_some_iff.mp hafter
  obtain ⟨c', hc', hstill, hgone, -⟩ := hstays c (Table.mem_of_get? hc) hterminated
  have hid := Table.key_of_get? hc
  have hsame : c'.id = c.id := by
    by_contra hne
    have hnone := hgone hne
    rw [hid, hd] at hnone
    cases hnone
  have hget := Table.mem_iff_get?.mp hc'
  rw [hsame, hid, hd] at hget
  cases hget
  exact absurd (hstill.symm.trans hawaiting) (by decide)

end ResendConversation
