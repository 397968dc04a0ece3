import ResendConversation.Conservation

/-! # Violations while an email is processed

The handler of a received email lets the outbound messages that the email refers to learn
their Message-IDs, and projects the email.  The one violation of the database that it can run
into is a Message-ID that the provider returns for an outbound message and that another
message carries by then (`Reachable.violates_iff`). -/

namespace ResendConversation

open Foundation Tx JsString

variable {Digest : Type} {rt : Runtime Digest} {s : System Digest}

/-- The errors that the database raises on a constraint. -/
def TxError.IsViolation : TxError → Prop
  | .uniqueViolation | .foreignKeyViolation | .checkViolation => True
  | _ => False

/-- The next step of the handler throws a violation.  A unique violation of the projection is
caught, and thrown again if no stored message carries the email. -/
def ReceiveHandler.Violates (rt : Runtime Digest) (s : System Digest) (h : ReceiveHandler Digest)
    (c : Choice Digest) : Prop :=
  match h.phase with
  | .hydrate hydration _ => ∃ m pending mid createdAt e, hydration.pending = m :: pending ∧
      c.retrieved = some (mid, createdAt) ∧ e.IsViolation ∧
      recordOutboundInternetMessageId rt s.config c.scan s.now m.id mid createdAt s.db = .error e
  | .project email => c.fails = false ∧ ∃ e, e.IsViolation ∧
      projectInboundEmail rt s.config c.scan s.now h.event email
        (s.config.resendReplyTo.getD []) s.db = .error e ∧
      (e = .uniqueViolation → findProjected rt s.db c.scan h.event email = none)
  | _ => False

/-- The provider returns, for the next outbound message of the hydration, a Message-ID that
another stored message carries. -/
def ReceiveHandler.Collides (s : System Digest) (h : ReceiveHandler Digest) (c : Choice Digest) :
    Prop :=
  ∃ hydration email m pending mid createdAt, h.phase = .hydrate hydration email ∧
    hydration.pending = m :: pending ∧ c.retrieved = some (mid, createdAt) ∧ s.db.Recordable m.id ∧
    ∃ other ∈ s.db.messages, other.id ≠ m.id ∧ other.internetMessageId = some mid

/-- A recording runs into a violation exactly if another message carries the Message-ID. -/
theorem recordOutboundInternetMessageId_violates {config : Config}
    {scan : Scan (EmailMessage Digest)} {now emailCreatedAt : Time} {id : Uuid} {mid : JsString}
    {db : Database Digest} (hs : db.Sound)
    (hbased : ∀ c row, db.threads.conversations c = some row → row.Based) :
    (∃ e, TxError.IsViolation e ∧
      recordOutboundInternetMessageId rt config scan now id mid emailCreatedAt db = .error e) ↔
    db.Recordable id ∧ ∃ other ∈ db.messages, other.id ≠ id ∧
      other.internetMessageId = some mid := by
  have hfails : Fails (RecordingError db id mid)
      (recordOutboundInternetMessageId rt config scan now id mid emailCreatedAt) db :=
    recordOutboundInternetMessageId_fails hs hbased
  constructor
  · rintro ⟨e, hviolation, he⟩
    rcases hfails e he with ⟨rfl | ⟨text, rfl⟩, -⟩ | ⟨-, htaken⟩
    · exact hviolation.elim
    · exact hviolation.elim
    · exact htaken
  · rintro ⟨hrecordable, other, hother, hne, hcarries⟩
    cases hx : recordOutboundInternetMessageId rt config scan now id mid emailCreatedAt db with
    | ok r =>
        -- a recording that commits leaves the Message-ID to one message
        obtain ⟨_, _, _, hrecorded⟩ := recordOutboundInternetMessageId_threads hx
        exact absurd hcarries (hrecorded.unused mid other.id other.threadView rfl hne
          (EmailMessage.threadView_of_get? (Table.mem_iff_get?.mp hother)))
    | error e =>
        rcases hfails e hx with ⟨-, hnot⟩ | ⟨rfl, -⟩
        · exact absurd hrecordable hnot
        · exact ⟨.uniqueViolation, trivial, rfl⟩

/-- A projection that runs into a unique violation finds the message that carries the email. -/
theorem findProjected_isSome {db : Database Digest} {scan : Scan (EmailMessage Digest)}
    {event : EmailEventData} {email : ResendEmail} {m : EmailMessage Digest} (hm : m ∈ db.messages)
    (hcarries : carriesIdentity event (parseInboundEmail rt event email) m = true) :
    (findProjected rt db scan event email).isSome := by
  have hmem : m ∈ scan.order
      (db.messages.select (carriesIdentity event (parseInboundEmail rt event email))) :=
    (scan.perm _).mem_iff.mpr (Table.mem_select.mpr ⟨hm, hcarries⟩)
  exact List.isSome_head?.mpr (List.ne_nil_of_mem hmem)

/-- In every reachable state the processing of a received email throws a violation exactly if
the provider returns, for a message that is to learn its Message-ID, one that another stored
message carries.  Generated tokens are distinct while there are identifiers left. -/
theorem Reachable.violates_iff [DecidableEq Digest] (h : Reachable rt s)
    (hroom : s.db.nextId + 1 < 16 ^ 32) (receiver : ReceiveHandler Digest) (c : Choice Digest) :
    receiver.Violates rt s c ↔ receiver.Collides s c := by
  have hs := h.threaded.sound
  have hbased := h.proper.based
  cases hphase : receiver.phase with
  | hydrate hydration email =>
      constructor
      · intro hviolates
        simp only [ReceiveHandler.Violates, hphase] at hviolates
        obtain ⟨m, pending, mid, createdAt, e, hpending, hretrieved, hviolation, he⟩ := hviolates
        obtain ⟨hrecordable, htaken⟩ :=
          (recordOutboundInternetMessageId_violates hs hbased).mp ⟨e, hviolation, he⟩
        exact ⟨hydration, email, m, pending, mid, createdAt, hphase, hpending, hretrieved,
          hrecordable, htaken⟩
      · rintro ⟨hydration', email', m, pending, mid, createdAt, hphase', hpending, hretrieved,
          hrecordable, htaken⟩
        rw [hphase] at hphase'
        cases hphase'
        obtain ⟨e, hviolation, he⟩ :=
          (recordOutboundInternetMessageId_violates hs hbased).mpr ⟨hrecordable, htaken⟩
        simp only [ReceiveHandler.Violates, hphase]
        exact ⟨m, pending, mid, createdAt, e, hpending, hretrieved, hviolation, he⟩
  | project email =>
      constructor
      · intro hviolates
        simp only [ReceiveHandler.Violates, hphase] at hviolates
        obtain ⟨-, e, hviolation, he, hnone⟩ := hviolates
        obtain ⟨rfl, -⟩ | ⟨rfl, hfull | ⟨m, hm, hcarries⟩⟩ :=
          projectInboundEmail_fails hs h.tokened h.proper e he
        · cases hviolation
        · exact absurd hroom (Nat.not_lt.mpr hfull)
        · have hfound : (findProjected rt s.db c.scan receiver.event email).isSome :=
            findProjected_isSome hm hcarries
          rw [hnone rfl] at hfound
          cases hfound
      · rintro ⟨_, _, _, _, _, _, hphase', -⟩
        rw [hphase] at hphase'
        cases hphase'
  | _ =>
      constructor
      · intro hviolates
        simp only [ReceiveHandler.Violates, hphase] at hviolates
      · rintro ⟨_, _, _, _, _, _, hphase', -⟩
        rw [hphase] at hphase'
        cases hphase'

namespace Reference

/-- An opening that the batch lane sends, and whose Message-ID is not known yet. -/
def sentOpening : List (Action SendRequest) :=
  grants ++ submit 0 (opening true (js "e")) (js "k") ++
    [.start 1 (.batchDrain 10) {}, .run 1 {}, .reach 5 (some [js "r"]) (.sent [js "r"]),
      .run 1 {}, .run 1 {}]

/-- A reply to the opening, before its hydration. -/
def reply (pid : ℕ) : List (Action SendRequest) :=
  (receive pid (js "2") (js "2") (mail (js "<y>") (some (js "<x>")))).take 4

/-- An email of another participant that carries the Message-ID of the opening. -/
def planted : List (Action SendRequest) :=
  receive 2 (js "1") (js "1") { mail (js "<x>") none with «from» := js "z@q.co" }

/-- Whether the process is about to hydrate the message. -/
def hydrates (s : System SendRequest) (pid : ℕ) (id : Uuid) : Bool :=
  match s.procs.get? pid with
  | some (_, .receive h) =>
      match h.phase with
      | .hydrate hydration _ => hydration.pending.head?.any fun m => m.id == id
      | _ => false
  | _ => false

theorem hydrates_spec {s : System SendRequest} {pid : ℕ} {id : Uuid}
    (h : hydrates s pid id = true) :
    ∃ receiver hydration email m pending, s.Runs pid (.receive receiver) ∧
      receiver.phase = .hydrate hydration email ∧ hydration.pending = m :: pending ∧ m.id = id := by
  unfold hydrates at h
  split at h
  next q receiver hp =>
    obtain rfl : q = pid := Table.key_of_get? hp
    split at h
    next hydration email hphase =>
      cases hpending : hydration.pending with
      | nil =>
          rw [hpending] at h
          cases h
      | cons m pending =>
          rw [hpending] at h
          exact ⟨receiver, hydration, email, m, pending, hp, hphase, hpending, by simpa using h⟩
    next => cases h
  next => cases h

/-- Whether the message is stored as an outbound one of the conversation. -/
def sentIn (s : System SendRequest) (id c : Uuid) : Bool :=
  ((s.db.messages.get? id).any fun m =>
    m.direction == .outbound && m.kind == .conversation && m.conversationId == some c) &&
      (s.db.conversations.get? c).isSome

theorem sentIn_spec {s : System SendRequest} {id c : Uuid} (h : sentIn s id c = true) :
    s.db.Recordable id := by
  unfold sentIn at h
  simp only [Bool.and_eq_true, Option.any_eq_true, beq_iff_eq] at h
  obtain ⟨⟨m, hm, ⟨hdirection, hkind⟩, hc⟩, hrow⟩ := h
  obtain ⟨row, hrow⟩ := Option.isSome_iff_exists.mp hrow
  exact ⟨m, c, row, hm, hdirection, hkind, hc, hrow⟩

end Reference

/-- The opening learns its Message-ID, which no other message carries. -/
theorem violates_iff_reference : ∃ s receiver, Reachable .reference s ∧
    s.Runs 3 (.receive receiver) ∧ Reference.hydrates s 3 2 = true ∧
      ¬receiver.Violates .reference s { retrieved := some (js "<x>", 0) } := by
  obtain ⟨s, hs, hhydrates, hroom, hfree⟩ : ∃ s, Run (step .reference) Always .reference s ∧
      Reference.hydrates s 3 2 = true ∧ s.db.nextId + 1 < 16 ^ 32 ∧
        (s.db.messages.rows.all fun m => m.internetMessageId != some (js "<x>")) = true :=
    Run.exists_of_exec (Reference.sentOpening ++ Reference.reply 3) (by decide +kernel)
  obtain ⟨receiver, -, -, -, -, hruns, -⟩ := Reference.hydrates_spec hhydrates
  refine ⟨s, receiver, .of_run hs, hruns, hhydrates, fun hviolates => ?_⟩
  obtain ⟨-, -, -, -, mid, createdAt, -, -, hretrieved, -, other, hother, -, hcarries⟩ :=
    ((Reachable.of_run hs).violates_iff hroom receiver _).mp hviolates
  cases hretrieved
  rw [List.all_eq_true] at hfree
  exact absurd hcarries (by simpa using hfree other hother)

/-- After another participant's email with the Message-ID of the opening, the processing of a
reply to the opening throws a unique violation. -/
theorem reply_violates : ∃ s receiver, Reachable .reference s ∧ s.Runs 3 (.receive receiver) ∧
    receiver.Violates .reference s { retrieved := some (js "<x>", 0) } := by
  obtain ⟨s, hs, hhydrates, hsent, hplanted⟩ : ∃ s, Run (step .reference) Always .reference s ∧
      Reference.hydrates s 3 2 = true ∧ Reference.sentIn s 2 0 = true ∧
        ((s.db.messages.get? 9).any fun m => m.internetMessageId == some (js "<x>")) = true :=
    Run.exists_of_exec (Reference.sentOpening ++ Reference.planted ++ Reference.reply 3)
      (by decide +kernel)
  obtain ⟨receiver, hydration, email, m, pending, hruns, hphase, hpending, hid⟩ :=
    Reference.hydrates_spec hhydrates
  obtain ⟨other, hother, hcarries⟩ := (Option.any_eq_true _ _).mp hplanted
  have hreachable : Reachable .reference s := .of_run hs
  have hsent' : s.db.Recordable m.id := hid ▸ Reference.sentIn_spec hsent
  have hne : other.id ≠ m.id := by
    rw [Table.key_of_get? hother, hid]
    decide
  obtain ⟨e, hviolation, he⟩ := (recordOutboundInternetMessageId_violates hreachable.threaded.sound
    hreachable.proper.based).mpr ⟨hsent', other, Table.mem_of_get? hother, hne,
      by simpa using hcarries⟩
  refine ⟨s, receiver, hreachable, hruns, ?_⟩
  simp only [ReceiveHandler.Violates, hphase]
  exact ⟨m, pending, js "<x>", 0, e, hpending, rfl, hviolation, he⟩

end ResendConversation
