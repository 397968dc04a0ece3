import ResendConversation.StepStatements

/-! # Transactions of mail

`step_mails`: a step of a process whose grant lets it thread messages runs one of five
transactions, or leaves the database as it is. -/

namespace ResendConversation

open Foundation Tx

variable {Digest : Type} {rt : Runtime Digest} {s s' : System Digest}

/-- What a step of the process `p` that may thread messages makes of the database. -/
inductive MailStep (rt : Runtime Digest) (s : System Digest) (c : Choice Digest) (p : Proc Digest)
    (db' : Database Digest) : Prop
  | nothing (same : db' = s.db)
  | stored (h : SendHandler Digest) (parent : Option ReplyParent) (id : Uuid) (proc : p = .send h)
      (phase : h.phase = .transact parent)
      (stores : SendHandler.storeMessage (h.context rt s c) parent s.db = .ok (id, db'))
  | reopened (h : SendHandler Digest) (conversation : EmailConversation) (queued : Bool)
      (value : CreateConversationV2Input) (id : Uuid) (proc : p = .send h)
      (phase : h.phase = .reopenTransact conversation) (request : h.request = .opening queued value)
      (reopens : reopenConversation (h.context rt s c) value conversation s.db = .ok (some id, db'))
  | recorded (id : Uuid) (mid : JsString) (createdAt : Time) (m : EmailMessage Digest)
      (retrieved : c.retrieved = some (mid, createdAt))
      (records : recordOutboundInternetMessageId rt s.config c.scan s.now id mid createdAt s.db =
        .ok (m, db'))
  | named (id : Uuid) (mid : JsString) (createdAt : Time) (m : EmailMessage Digest)
      (retrieved : c.retrieved = some (mid, createdAt))
      (names : updateMessage id (fun m => { m with internetMessageId := some mid }) (fun _ => rfl)
        s.db = .ok (m, db'))
  | projected (h : ReceiveHandler Digest) (email : ResendEmail) (m : EmailMessage Digest)
      (proc : p = .receive h)
      (phase : h.phase = .project email)
      (projects : projectInboundEmail rt s.config c.scan s.now h.event email
        (s.config.resendReplyTo.getD []) s.db = .ok (m, db'))

/-- The database after a transaction. -/
theorem System.transact_db_cases {α : Type} (s : System Digest) (x : Transaction Digest α) :
    (s.transact x).2.db = s.db ∨ ∃ r, x s.db = .ok (r, (s.transact x).2.db) := by
  rcases s.transact_cases x with ⟨r, db', hx, heq⟩ | ⟨e, heq⟩
  · rw [heq]
    exact .inr ⟨r, hx⟩
  · rw [heq]
    exact .inl rfl

section
variable {h : SendHandler Digest} {pid : ℕ} {c : Choice Digest}

theorem SendHandler.hydrateSent_mails (d : Delivery) (m : EmailMessage Digest) :
    MailStep rt s c (.send h) (h.hydrateSent rt s pid d m c).db := by
  unfold hydrateSent
  split
  · exact .nothing rfl
  split
  · exact .nothing rfl
  next mid createdAt hretrieved =>
    have hrecord := s.transact_db_cases
      (recordOutboundInternetMessageId rt s.config c.scan s.now m.id mid createdAt)
    split
    all_goals
      next heq =>
        rw [heq] at hrecord
        rcases hrecord with hsame | ⟨r, hx⟩
        · exact .nothing hsame
        · exact .recorded m.id mid createdAt r hretrieved hx

theorem SendHandler.retrieveMessageId_mails (parent stored : EmailMessage Digest) :
    MailStep rt s c (.send h) (h.retrieveMessageId rt s pid parent stored c).db := by
  unfold retrieveMessageId
  split
  · exact .nothing rfl
  next mid createdAt hretrieved =>
    have hwrite := s.transact_db_cases (if stored.direction = .outbound then
      recordOutboundInternetMessageId rt s.config c.scan s.now stored.id mid createdAt
      else updateMessage stored.id (fun m => { m with internetMessageId := some mid }) fun _ => rfl)
    dsimp only
    split
    all_goals
      next heq =>
        rw [heq] at hwrite
        rcases hwrite with hsame | ⟨r, hx⟩
        · exact .nothing hsame
        · split at hx
          · exact .recorded stored.id mid createdAt r hretrieved hx
          · exact .named stored.id mid createdAt r hretrieved hx

theorem SendHandler.reopenTransact_mails {conversation : EmailConversation}
    (hphase : h.phase = .reopenTransact conversation)
    (hs : h.reopenTransact rt s pid conversation c = some s') :
    MailStep rt s c (.send h) s'.db := by
  unfold reopenTransact at hs
  split at hs
  next queued value hrequest =>
    dsimp only at hs
    rcases s.transact_cases (reopenConversation (h.context rt s c) value conversation) with
      ⟨r, db', hx, heq⟩ | ⟨e, heq⟩
    · rw [heq] at hs
      cases r with
      | none =>
          cases hs
          exact .nothing (reopenConversation_none hx)
      | some id =>
          cases hs
          exact .reopened h conversation queued value id rfl hphase hrequest hx
    · rw [heq] at hs
      cases hs
      exact .nothing rfl
  · cases hs

theorem SendHandler.step_mails [DecidableEq Digest] (hs : h.step rt s pid c = some s')
    (hg : (Proc.grant rt s c (.send h)).rethread) : MailStep rt s c (.send h) s'.db := by
  simp only [Proc.grant] at hg
  split at hg
  next parent hphase =>
    simp only [step, hphase, Option.some.injEq] at hs
    subst hs
    rcases s.transact_db_cases (SendHandler.storeMessage (h.context rt s c) parent) with
      hsame | ⟨r, hx⟩
    · exact .nothing hsame
    · exact .stored h parent r rfl hphase hx
  next conversation hphase =>
    simp only [step, hphase] at hs
    exact reopenTransact_mails hphase hs
  next parent stored hphase =>
    simp only [step, hphase, Option.some.injEq] at hs
    exact hs ▸ retrieveMessageId_mails parent stored
  next d m hphase =>
    simp only [step, hphase, deliver, Option.some.injEq] at hs
    exact hs ▸ hydrateSent_mails d m
  · exact hg.elim

end

section
variable {h : ReceiveHandler Digest} {pid : ℕ} {c : Choice Digest}

theorem ReceiveHandler.hydrate_mails (hydration : Hydration Digest) (email : Option ResendEmail) :
    MailStep rt s c (.receive h) (h.hydrate rt s pid hydration email c).db := by
  unfold hydrate
  split
  · repeat' split
    all_goals exact .nothing rfl
  next m pending _ =>
    split
    · exact .nothing rfl
    next mid createdAt hretrieved =>
      have hrecord := s.transact_db_cases
        (recordOutboundInternetMessageId rt s.config c.scan s.now m.id mid createdAt)
      split
      all_goals
        next heq =>
          rw [heq] at hrecord
          rcases hrecord with hsame | ⟨r, hx⟩
          · exact .nothing hsame
          · exact .recorded m.id mid createdAt r hretrieved hx

theorem ReceiveHandler.project_mails {email : ResendEmail} (hphase : h.phase = .project email) :
    MailStep rt s c (.receive h) (h.project rt s pid email c).db := by
  unfold project
  split
  · exact .nothing rfl
  have hproject := s.transact_db_cases (projectInboundEmail rt s.config c.scan s.now h.event email
    (s.config.resendReplyTo.getD []))
  split
  all_goals
    next heq =>
      rw [heq] at hproject
      rcases hproject with hsame | ⟨r, hx⟩
      · exact .nothing hsame
      · exact .projected h email r rfl hphase hx

theorem ReceiveHandler.step_mails [DecidableEq Digest] (hs : h.step rt s pid c = some s')
    (hg : (Proc.grant rt s c (.receive h)).rethread) : MailStep rt s c (.receive h) s'.db := by
  simp only [Proc.grant] at hg
  split at hg
  next hydration email hphase =>
    simp only [step, hphase, Option.some.injEq] at hs
    exact hs ▸ hydrate_mails hydration email
  next email hphase =>
    simp only [step, hphase, Option.some.injEq] at hs
    exact hs ▸ project_mails hphase
  · exact hg.elim

end

theorem runProc_mails [DecidableEq Digest] {p : Proc Digest} {pid : ℕ} {c : Choice Digest}
    (hs : runProc rt s pid c p = some s') (hg : (p.grant rt s c).rethread) :
    MailStep rt s c p s'.db := by
  cases p with
  | send h => exact h.step_mails hs hg
  | receive h => exact h.step_mails hs hg
  | reaper phase => cases phase <;> exact hg.elim
  | _ => exact hg.elim

/-- A step that may thread messages is one of a process that runs such a transaction. -/
theorem step_mails [DecidableEq Digest] {a : Action Digest} (hs : step rt s a = some s')
    (hg : (s.grant rt a).rethread) :
    ∃ pid c p, a = .run pid c ∧ s.Runs pid p ∧ MailStep rt s c p s'.db := by
  rcases System.grant_cases (P := Grant.rethread) hg (fun h => h) (fun h => h) with
    ⟨pid, c, p, rfl, hruns, hp⟩ | ⟨pid, c, -, hp⟩ | ⟨request, -, hp⟩
  · simp only [step, show s.procs.get? pid = some (pid, p) from hruns, Option.bind_some] at hs
    exact ⟨pid, c, p, rfl, hruns, runProc_mails hs hp⟩
  · exact hp.elim
  · exact hp.elim

end ResendConversation
