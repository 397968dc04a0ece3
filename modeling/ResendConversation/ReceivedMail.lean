import ResendConversation.ArrivalOrder
import ResendConversation.Hydration

/-! # Received emails

When `projectInboundEmail` returns, the email is stored as an inbound message, or it is taken for
one that was stored before: that has its provider id or carries its Message-ID.  Message-IDs are
unique over all participants, so that message can be another participant's. -/

namespace ResendConversation

open Foundation Tx

variable {Digest : Type} {rt : Runtime Digest} {s s' : System Digest} {db db' : Database Digest}

/-- The step of the handler in which `projectInboundEmail` returns: the end of its transaction,
or the lookup after a unique violation. -/
structure ReceiveHandler.Projects [DecidableEq Digest] (rt : Runtime Digest) (s : System Digest)
    (pid : ℕ) (h : ReceiveHandler Digest) (email : ResendEmail) (c : Choice Digest)
    (s' : System Digest) :
    Prop where
  runs : s.Runs pid (.receive h)
  phase : h.phase = .project email ∨ h.phase = .fallback email
  step : ResendConversation.step rt s (.run pid c) = some s'
  returns : ∃ m, s'.Runs pid (h.goto (.completed (some m)))

/-- A projection that commits stores the email, where no message carried it before. -/
theorem projectInboundEmail_carried {config : Config} {scan : Scan (EmailMessage Digest)}
    {now : Time} {event : EmailEventData} {email : ResendEmail} {base : JsString}
    {m : EmailMessage Digest}
    (h : projectInboundEmail rt config scan now event email base db = .ok (m, db')) :
    (∃ m' ∈ db'.messages, m'.direction = .inbound ∧ m'.resendEmailId = some event.emailId) ∨
      ∃ m' ∈ db.messages, carriesIdentity event (parseInboundEmail rt event email) m' = true := by
  rcases projectInboundEmail_threads h with
    ⟨-, hm, -, hcarries⟩ | ⟨-, c, t₀, children, -, hstored, -⟩
  · exact .inr ⟨m, hm, hcarries⟩
  · obtain ⟨m', hm', hview⟩ := Database.view?_eq_some.mp (projectInboundEmail_view h)
    have hdirection := congrArg SendView.direction hview
    have hid := congrArg SendView.resendEmailId hview
    rw [hstored] at hdirection hid
    exact .inl ⟨m', Table.mem_of_get? hm', hdirection, hid⟩

/-- What the lookup after a unique violation finds is stored and carries the email. -/
theorem findProjected_carried {scan : Scan (EmailMessage Digest)} {event : EmailEventData}
    {email : ResendEmail} {m : EmailMessage Digest}
    (h : findProjected rt db scan event email = some m) :
    m ∈ db.messages ∧ carriesIdentity event (parseInboundEmail rt event email) m = true := by
  have hmem := (scan.perm _).mem_iff.mp (List.mem_of_mem_head? h)
  exact Table.mem_select.mp hmem

section
variable [DecidableEq Digest]

omit [DecidableEq Digest] in
/-- A handler that has not completed the projection. -/
theorem System.Runs.not_completed {p : ReceivePhase Digest} {h : ReceiveHandler Digest} {pid : ℕ}
    {t : System Digest} (hp : ∀ m, p ≠ .completed (some m))
    (hend : ∃ m, (t.become pid (h.goto p)).Runs pid (h.goto (.completed (some m)))) :
    False := by
  obtain ⟨m, hm⟩ := hend
  simp only [System.Runs, System.become, Table.get?_set, if_true, Option.some.injEq,
    Prod.mk.injEq, true_and, ReceiveHandler.goto, Proc.receive.injEq, ReceiveHandler.mk.injEq] at hm
  exact hp m hm

theorem ReceiveHandler.Projects.carried {pid : ℕ} {h : ReceiveHandler Digest} {email : ResendEmail}
    {c : Choice Digest} (hprojects : h.Projects rt s pid email c s') :
    (∃ m ∈ s'.db.messages, m.direction = .inbound ∧ m.resendEmailId = some h.event.emailId) ∨
      ∃ m ∈ s.db.messages, carriesIdentity h.event (parseInboundEmail rt h.event email) m =
        true := by
  obtain ⟨hruns, hphase, hstep, hreturns⟩ := hprojects
  rw [System.Runs] at hruns
  rw [ResendConversation.step, hruns, Option.bind_some] at hstep
  change h.step rt s pid c = some s' at hstep
  unfold ReceiveHandler.step at hstep
  rcases hphase with hphase | hphase
  · rw [hphase] at hstep
    dsimp only at hstep
    rw [Option.some.injEq, ReceiveHandler.project] at hstep
    split at hstep
    · rw [← hstep] at hreturns
      exact (System.Runs.not_completed (by simp) hreturns).elim
    · simp only [System.transact] at hstep
      cases hx : Tx.execute (projectInboundEmail rt s.config c.scan s.now h.event email
          (s.config.resendReplyTo.getD [])) s.db with
      | mk result db =>
          rw [hx] at hstep
          cases result with
          | ok m =>
              rw [← hstep]
              exact projectInboundEmail_carried (ok_of_execute hx)
          | error e =>
              rw [← hstep] at hreturns
              cases e <;> exact (System.Runs.not_completed (by simp) hreturns).elim
  · rw [hphase] at hstep
    dsimp only at hstep
    cases hfound : findProjected rt s.db c.scan h.event email with
    | some m =>
        exact .inr ⟨m, findProjected_carried hfound⟩
    | none =>
        rw [hfound, Option.some.injEq] at hstep
        rw [← hstep] at hreturns
        exact (System.Runs.not_completed (by simp) hreturns).elim

end

/-! ### Dropped emails -/

/-- An email is stored as an inbound message with its provider id, but for one whose provider id or
Message-ID a stored message already has. -/
theorem received_kept [DecidableEq Digest] (rt : Runtime Digest) (s s' : System Digest) (pid : ℕ)
    (h : ReceiveHandler Digest) (email : ResendEmail) (c : Choice Digest)
    (hprojects : h.Projects rt s pid email c s') :
    (∃ m ∈ s'.db.messages, m.direction = .inbound ∧ m.resendEmailId = some h.event.emailId) ∨
      ∃ m ∈ s.db.messages, m.resendEmailId = some h.event.emailId ∨
        m.internetMessageId = some (parseInboundEmail rt h.event email).internetMessageId := by
  refine hprojects.carried.imp_right ?_
  rintro ⟨m, hm, hcarries⟩
  rw [carriesIdentity, Bool.or_eq_true, beq_iff_eq, beq_iff_eq] at hcarries
  exact ⟨m, hm, hcarries⟩

namespace Reference

/-- Whether the process returns from a projection with the property. -/
def projects (q : ReceiveHandler SendRequest → ResendEmail → Bool) (s : System SendRequest)
    (pid : ℕ) (s' : System SendRequest) : Bool :=
  match s.procs.get? pid, s'.procs.get? pid with
  | some (_, .receive h), some (_, .receive h') =>
      match h.phase, h'.phase with
      | .project email, .completed (some m) =>
          decide (h' = { h with phase := .completed (some m) }) && q h email
      | _, _ => false
  | _, _ => false

theorem projects_spec {q : ReceiveHandler SendRequest → ResendEmail → Bool}
    {s s' : System SendRequest} {pid : ℕ} {c : Choice SendRequest}
    (hstep : step .reference s (.run pid c) = some s') (h : projects q s pid s' = true) :
    ∃ receiver email, receiver.Projects .reference s pid email c s' ∧ q receiver email = true := by
  unfold projects at h
  split at h
  next q₁ receiver q₂ receiver' hruns hruns' =>
    obtain rfl : q₁ = pid := Table.key_of_get? hruns
    obtain rfl : q₂ = q₁ := Table.key_of_get? hruns'
    split at h
    next email m hphase hphase' =>
      rw [Bool.and_eq_true, decide_eq_true_eq] at h
      exact ⟨receiver, email, ⟨hruns, .inl hphase, hstep, m, hruns'.trans (by rw [h.1]; rfl)⟩, h.2⟩
    next => cases h
  next => cases h

/-- An email of another participant, and one with its Message-ID before its projection. -/
def copied : List (Action SendRequest) :=
  receive 0 (js "1") (js "1") { mail (js "<a>") none with «from» := js "z@q.co" } ++
    (receive 1 (js "2") (js "2") (mail (js "<a>") none)).dropLast

/-- An opening whose acceptance is recorded while an email with its provider id waits for its
projection. -/
def taken : List (Action SendRequest) :=
  grants ++ submit 0 (opening true (js "e")) (js "k") ++
    [.start 1 (.batchDrain 10) {}, .run 1 {}, .reach 5 (some [js "r"]) (.sent [js "r"])] ++
    (receive 7 (js "1") (js "r") (mail (js "<y>") none)).dropLast ++ [.run 1 {}, .run 1 {}]

end Reference

/-- Another participant's email with the same Message-ID, and an outbound message with the same
provider id, have an email dropped. -/
theorem received_dropped :
    (¬∀ (s s' : System SendRequest) (pid : ℕ) (h : ReceiveHandler SendRequest) (email : ResendEmail)
      (c : Choice SendRequest), Reachable .reference s → h.Projects .reference s pid email c s' →
        (∃ m ∈ s'.db.messages, m.direction = .inbound ∧ m.resendEmailId = some h.event.emailId) ∨
          ∃ m ∈ s'.db.messages, m.internetMessageId =
            some (parseInboundEmail .reference h.event email).internetMessageId ∧
            Runtime.reference.toLowerCase m.fromAddress =
              (parseInboundEmail .reference h.event email).participantAddress) ∧
    ¬∀ (s s' : System SendRequest) (pid : ℕ) (h : ReceiveHandler SendRequest) (email : ResendEmail)
      (c : Choice SendRequest), Reachable .reference s → h.Projects .reference s pid email c s' →
        (∃ m ∈ s'.db.messages, m.direction = .inbound ∧ m.resendEmailId = some h.event.emailId) ∨
          ∃ m ∈ s'.db.messages,
            m.internetMessageId =
              some (parseInboundEmail .reference h.event email).internetMessageId := by
  constructor
  · intro hkept
    obtain ⟨s, s', hs, hstep, hprojects⟩ : ∃ s s', Run (step .reference) Always .reference s ∧
        step .reference s (.run 1 {}) = some s' ∧
          Reference.projects (fun h email => s'.db.messages.rows.all fun m =>
          !decide (m.direction = .inbound ∧ m.resendEmailId = some h.event.emailId) &&
            !decide (m.internetMessageId =
              some (parseInboundEmail .reference h.event email).internetMessageId ∧
              Runtime.reference.toLowerCase m.fromAddress =
                (parseInboundEmail .reference h.event email).participantAddress)) s 1 s' = true :=
      Run.exists_of_exec_step Reference.copied (.run 1 {}) (by decide +kernel)
    obtain ⟨receiver, email, hprojects, hnone⟩ := Reference.projects_spec hstep hprojects
    rw [List.all_eq_true] at hnone
    rcases hkept s s' 1 receiver email {} (.of_run hs) hprojects with
      ⟨m, hm, hfound⟩ | ⟨m, hm, hfound⟩
    · have hnot := hnone m hm
      simp [hfound] at hnot
    · have hnot := hnone m hm
      simp [hfound] at hnot
  · intro hkept
    obtain ⟨s, s', hs, hstep, hprojects⟩ : ∃ s s', Run (step .reference) Always .reference s ∧
        step .reference s (.run 7 {}) = some s' ∧
          Reference.projects (fun h email => s'.db.messages.rows.all fun m =>
          !decide (m.direction = .inbound ∧ m.resendEmailId = some h.event.emailId) &&
            !decide (m.internetMessageId =
              some (parseInboundEmail .reference h.event email).internetMessageId)) s 7 s' = true :=
      Run.exists_of_exec_step Reference.taken (.run 7 {}) (by decide +kernel)
    obtain ⟨receiver, email, hprojects, hnone⟩ := Reference.projects_spec hstep hprojects
    rw [List.all_eq_true] at hnone
    rcases hkept s s' 7 receiver email {} (.of_run hs) hprojects with
      ⟨m, hm, hfound⟩ | ⟨m, hm, hfound⟩
    · have hnot := hnone m hm
      simp [hfound] at hnot
    · have hnot := hnone m hm
      simp [hfound] at hnot

/-- An email with a new provider id and a new Message-ID is stored. -/
theorem received_kept_reference :
    ∃ (s s' : System SendRequest) (h : ReceiveHandler SendRequest) (email : ResendEmail),
    Reachable .reference s ∧ h.Projects .reference s 0 email {} s' ∧ s.db.messages.rows = [] ∧
      ((∃ m ∈ s'.db.messages, m.direction = .inbound ∧ m.resendEmailId = some h.event.emailId) ∨
        ∃ m ∈ s.db.messages, m.resendEmailId = some h.event.emailId ∨
          m.internetMessageId =
            some (parseInboundEmail .reference h.event email).internetMessageId) := by
  obtain ⟨s, s', hs, hstep, hprojects, hempty⟩ : ∃ s s', Run (step .reference) Always .reference s ∧
      step .reference s (.run 0 {}) = some s' ∧ Reference.projects (fun _ _ => true) s 0 s' = true ∧
        s.db.messages.rows = [] :=
    Run.exists_of_exec_step
      (Reference.receive 0 (js "1") (js "1") (Reference.mail (js "<a>") none)).dropLast (.run 0 {})
      (by decide +kernel)
  obtain ⟨receiver, email, hprojects, -⟩ := Reference.projects_spec hstep hprojects
  exact ⟨s, s', receiver, email, .of_run hs, hprojects, hempty,
    received_kept _ _ _ _ _ _ _ hprojects⟩

end ResendConversation
