import ResendConversation.ThreadSteps

/-! # Runs as events of threads

`step_thread`: every step of the system is a `ThreadStep`.  Every reachable database is
therefore sound, and what a process carries is true. -/

namespace ResendConversation

open Foundation Tx

variable {Digest : Type} {rt : Runtime Digest} {s s' : System Digest} {a : Action Digest}

/-- A step that keeps the database, and after which the process carries nothing. -/
theorem ThreadStep.of_same {t : System Digest} (hdb : t.db = s.db) (hprocs : t.procs = s.procs)
    (pid : ℕ) {p : Proc Digest} (hp : p.Free) : ThreadStep rt s a (t.become pid p) :=
  .of_plain (by rw [hdb]; exact Std.Refl.refl s.db) hprocs pid (hp.bound _)

/-- A step that draws an identifier. -/
theorem ThreadStep.of_draw {t : System Digest}
    (hdb : t.db = { s.db with nextId := s.db.nextId + 1 }) (hprocs : t.procs = s.procs) (pid : ℕ)
    {p : Proc Digest} (hb : p.Bound t.db.threads) :
    ThreadStep rt s a (t.become pid p) :=
  .of_plain (by rw [hdb]; exact lawful_draw _) hprocs pid hb

/-! ### The lanes -/

namespace BatchWorker

variable {pid : ℕ} {c : Choice Digest}

theorem start_thread (limit : ℕ) : ThreadStep rt s a (start s pid limit c) := by
  have hfree : ∀ w : BatchWorker Digest, (Proc.batchDrain w).Free := fun _ => ⟨rfl, rfl, rfl, rfl⟩
  unfold start claimOutboxBatch
  rcases s.transact_cases (claimTransaction (s.clock c.readAt) limit c.locked) with
    ⟨claim, db', hx, heq⟩ | ⟨e, heq⟩
  · have hplain : Lawful rt.toLowerCase (ThreadEvent.IsPlain (s.bases a)) s.db db' :=
      Minor.isPlain (minor_claimTransaction _ _ _) hx
    simp only [heq]
    cases claim with
    | none => exact .of_plain (t := { s with db := db' }) hplain rfl pid ((hfree _).bound _)
    | some claim =>
        obtain ⟨token, loaded⟩ := claim
        dsimp only
        cases checkClaim token loaded with
        | ok batch =>
            apply ThreadStep.of_plain
            exacts [hplain, rfl, (hfree _).bound _]
        | error e =>
            apply ThreadStep.of_plain
            exacts [hplain, rfl, (hfree _).bound _]
  · simp only [heq]
    exact .of_free pid (hfree _)

theorem step_thread {w : BatchWorker Digest} (hstep : w.step s pid c = some s') :
    ThreadStep rt s a s' := by
  have hfree : ∀ w : BatchWorker Digest, (Proc.batchDrain w).Free := fun _ => ⟨rfl, rfl, rfl, rfl⟩
  unfold step at hstep
  split at hstep
  · cases hstep
    unfold send
    dsimp only
    split
    · exact .of_free pid (hfree _)
    · split
      · apply ThreadStep.of_draw
        exacts [rfl, rfl, (hfree _).bound _]
      · exact .of_free pid (hfree _)
  · split at hstep
    · cases hstep
    · cases hstep
      apply ThreadStep.of_same
      exacts [rfl, rfl, hfree _]
  next batch decision =>
    rcases s.transact_cases (finalizeBatch s.config s.now batch decision) with
      ⟨u, db', hx, heq⟩ | ⟨e, heq⟩
    · rw [heq] at hstep
      cases hstep
      exact .of_plain (t := { s with db := db' })
        (Minor.isPlain (minor_finalizeBatch _ _ _ _) hx) rfl pid
        ((hfree _).bound _)
    · rw [heq] at hstep
      cases hstep
      exact .of_free pid (hfree _)
  · cases hstep

end BatchWorker

theorem decideEntryError_sends (now : Time) (entry : ClaimedEntry Digest) (error : SendError) :
    (decideEntryError now entry error).Sends := by
  unfold decideEntryError
  split_ifs <;> simp [EntryDecision.Sends]

theorem decideEntry_sends (now : Time) (entry : ClaimedEntry Digest) (observation : Observation) :
    (decideEntry now entry observation).Sends := by
  unfold decideEntry
  split
  · trivial
  · exact decideEntryError_sends _ _ _

namespace EntryWorker

variable {pid : ℕ} {c : Choice Digest}

/-- A worker that is about to write a decision. -/
theorem ending_bound (t : Threads) (remaining : ℕ) (result : AttachmentOutboxDrainResult)
    (entry : ClaimedEntry Digest) {decision : EntryDecision} (hd : decision.Sends) :
    (Proc.entryDrain (.working remaining result entry (.ending decision))).Bound t :=
  ⟨Proc.answers_of_none rfl, holds_of_none rfl, fun _ h => by cases h; exact hd, holds_of_none rfl⟩

theorem send_thread {remaining : ℕ} {result : AttachmentOutboxDrainResult}
    {entry : ClaimedEntry Digest} {claimedAt : Time} {fails : Bool} :
    ThreadStep rt s a (send s pid entry claimedAt fails fun phase =>
      .entryDrain (.working remaining result entry phase)) := by
  unfold send
  split
  · exact .of_become pid (ending_bound _ _ _ _ (by simp [EntryDecision.Sends]))
  · split
    · exact .of_become pid (ending_bound _ _ _ _ (decideEntryError_sends _ _ _))
    · split
      · apply ThreadStep.of_draw
        exacts [rfl, rfl, Proc.Free.bound ⟨rfl, rfl, rfl, rfl⟩ _]
      · exact .of_become pid (ending_bound _ _ _ _ (decideEntryError_sends _ _ _))

theorem finish_thread {remaining : ℕ} {result : AttachmentOutboxDrainResult}
    {entry : ClaimedEntry Digest} {decision : EntryDecision} (hd : decision.Sends) :
    ThreadStep rt s a (finish s pid remaining result entry decision) := by
  unfold finish
  rcases s.transact_cases (endEntry s.config s.now entry decision) with ⟨u, db', hx, heq⟩ | ⟨e, heq⟩
  · simp only [heq]
    exact .of_plain (t := { s with db := db' }) (Minor.isPlain (minor_endEntry _ _ _ hd) hx) rfl pid
      (Proc.Free.bound ⟨rfl, rfl, rfl, rfl⟩ _)
  · simp only [heq]
    split
    · exact .of_become pid (ending_bound _ _ _ _ (decideEntryError_sends _ _ _))
    · exact .of_free pid ⟨rfl, rfl, rfl, rfl⟩

theorem step_thread {w : EntryWorker Digest} (hb : (Proc.entryDrain w).Bound s.db.threads)
    (hstep : w.step s pid c = some s') : ThreadStep rt s a s' := by
  unfold step at hstep
  split at hstep
  · cases hstep
    exact .of_free pid ⟨rfl, rfl, rfl, rfl⟩
  · cases hstep
    unfold claim
    rcases s.transact_cases (claimEntry (s.clock c.readAt) c.locked) with
      ⟨r, db', hx, heq⟩ | ⟨e, heq⟩
    · have hplain : Lawful rt.toLowerCase (ThreadEvent.IsPlain (s.bases a)) s.db db' :=
        Minor.isPlain (minor_claimEntry _ _) hx
      simp only [heq]
      cases r with
      | none =>
          exact .of_plain (t := { s with db := db' }) hplain rfl pid
            (Proc.Free.bound ⟨rfl, rfl, rfl, rfl⟩ _)
      | some entry =>
          apply ThreadStep.of_plain
          exacts [hplain, rfl, Proc.Free.bound ⟨rfl, rfl, rfl, rfl⟩ _]
    · simp only [heq]
      exact .of_free pid ⟨rfl, rfl, rfl, rfl⟩
  · cases hstep
    exact send_thread
  · split at hstep
    · cases hstep
    · cases hstep
      apply ThreadStep.of_plain
      exacts [Std.Refl.refl s.db, rfl, ending_bound _ _ _ _ (decideEntry_sends _ _ _)]
  next decision =>
    cases hstep
    exact finish_thread (hb.decides decision rfl)
  · cases hstep

end EntryWorker

/-! ### Inbound mail -/

namespace ReceiveHandler

variable {h : ReceiveHandler Digest} {pid : ℕ} {c : Choice Digest}

theorem goto_free (h : ReceiveHandler Digest) (phase : ReceivePhase Digest) : (h.goto phase).Free :=
  ⟨rfl, rfl, rfl, rfl⟩

theorem beginHydration_free (h : ReceiveHandler Digest) (participantAddress : JsString)
    (ids : List JsString) (preferred : Option JsString) (email : Option ResendEmail) :
    (h.beginHydration rt s participantAddress ids preferred email).Free := by
  unfold beginHydration
  split <;> exact goto_free _ _

theorem hydrate_thread (hruns : s.Runs pid (.receive h)) {hydration : Hydration Digest}
    {email : Option ResendEmail} (hphase : h.phase = .hydrate hydration email) :
    ThreadStep rt s (.run pid c) (h.hydrate rt s pid hydration email c) := by
  unfold hydrate
  split
  · split
    · exact .of_free pid (goto_free _ _)
    · split <;> exact .of_free pid (goto_free _ _)
  next m pending hpending =>
    split
    · exact .of_free pid (goto_free _ _)
    next mid createdAt hretrieved =>
      rcases s.transact_cases
        (recordOutboundInternetMessageId rt s.config c.scan s.now m.id mid createdAt)
        with ⟨r, db', hx, heq⟩ | ⟨e, heq⟩
      · simp only [heq]
        exact .of_recorded hruns (by simp [Proc.records, hphase, hpending]) hretrieved hx fun _ =>
          (goto_free _ _).bound _
      · simp only [heq]
        exact .of_free pid (goto_free _ _)

theorem project_thread (hruns : s.Runs pid (.receive h)) {email : ResendEmail}
    (hphase : h.phase = .project email) :
    ThreadStep rt s (.run pid c) (h.project rt s pid email c) := by
  unfold project
  split
  · exact .of_free pid (goto_free _ _)
  next hcommits =>
    rcases s.transact_cases (projectInboundEmail rt s.config c.scan s.now h.event email
      (s.config.resendReplyTo.getD [])) with ⟨m, db', hx, heq⟩ | ⟨e, heq⟩
    · simp only [heq]
      exact ⟨.projected pid c h email m rfl hruns hphase (by simpa using hcommits) hx,
        binds_become (t := { s with db := db' }) rfl pid ((goto_free _ _).bound _)⟩
    · simp only [heq]
      cases e <;> exact .of_free pid (goto_free _ _)

theorem step_thread (hruns : s.Runs pid (.receive h)) (hstep : h.step rt s pid c = some s') :
    ThreadStep rt s (.run pid c) s' := by
  unfold step at hstep
  split at hstep
  · cases hstep
    exact .of_transact (minor_createWebhookEvent _ _ _ _ _ _) pid (goto_free _ _)
  · cases hstep
    refine .of_free pid ?_
    unfold inspect
    split
    · split
      · exact goto_free _ _
      · exact beginHydration_free _ _ _ _ _
    · exact goto_free _ _
  · cases hstep
    refine .of_free pid ?_
    unfold fetch
    split
    · exact goto_free _ _
    · exact beginHydration_free _ _ _ _ _
  next hphase =>
    cases hstep
    exact hydrate_thread hruns hphase
  next hphase =>
    cases hstep
    exact project_thread hruns hphase
  · split at hstep
    · cases hstep
      exact .of_free pid (goto_free _ _)
    · cases hstep
      exact .of_free pid (goto_free _ _)
  · cases hstep
  · cases hstep

end ReceiveHandler

/-! ### Stored objects -/

theorem IngestWorker.free (w : IngestWorker) :
    (Proc.ingest w : Proc Digest).Free := ⟨rfl, rfl, rfl, rfl⟩

theorem ReaperPhase.free (phase : ReaperPhase) : (Proc.reaper phase : Proc Digest).Free :=
  ⟨rfl, rfl, rfl, rfl⟩

/-- A minor transaction that changes no process. -/
theorem ThreadStep.of_minor {α : Type} {x : Transaction Digest α} (hx : Minor rt.toLowerCase x) :
    ThreadStep rt s a (s.transact x).2 :=
  .of_retired (lawful_transact (Minor.isPlain hx) s) fun _ _ hp => hp

/-- A minor transaction at the end of a process. -/
theorem ThreadStep.of_transact_finish {α : Type} {x : Transaction Digest α}
    (hx : Minor rt.toLowerCase x) (pid : ℕ) : ThreadStep rt s a ((s.transact x).2.finish pid) :=
  .of_finish (lawful_transact (Minor.isPlain hx) s) rfl pid

theorem IngestWorker.start_thread (pid : ℕ) (c : Choice Digest) :
    ThreadStep rt s a (IngestWorker.start s pid c) := by
  unfold IngestWorker.start
  rcases s.transact_cases (claimPendingAttachments (s.clock c.readAt) c.locked) with
    ⟨r, db', hx, heq⟩ | ⟨e, heq⟩
  · simp only [heq]
    exact .of_plain (t := { s with db := db' })
      (Minor.isPlain (minor_claimPendingAttachments _ _) hx) rfl
      pid ((IngestWorker.free _).bound _)
  · simp only [heq]
    exact .of_retired (Std.Refl.refl s.db) fun _ _ hp => hp

theorem IngestWorker.step_thread (w : IngestWorker) (pid : ℕ) (c : Choice Digest) :
    ThreadStep rt s a (w.step s pid c) := by
  unfold IngestWorker.step
  split
  · split
    · exact .of_finish (Std.Refl.refl s.db) rfl pid
    · exact .of_free pid (IngestWorker.free _)
  · unfold IngestWorker.fetch
    split
    · exact .of_free pid (IngestWorker.free _)
    · split
      · exact .of_free pid (IngestWorker.free _)
      · split
        · apply ThreadStep.of_same
          exacts [rfl, rfl, IngestWorker.free _]
        · apply ThreadStep.of_same
          exacts [rfl, rfl, IngestWorker.free _]
  next attachment sizeBytes _ =>
    unfold IngestWorker.store
    split
    · exact .of_free pid (IngestWorker.free _)
    · rcases s.transact_cases (storeIngested attachment sizeBytes) with ⟨r, db', hx, heq⟩ | ⟨e, heq⟩
      · simp only [heq]
        have hplain : Lawful rt.toLowerCase (ThreadEvent.IsPlain (s.bases a)) s.db db' :=
          Minor.isPlain (minor_storeIngested _ _) hx
        cases r <;> exact .of_plain (t := { s with db := db' }) hplain rfl pid
          ((IngestWorker.free _).bound _)
      · simp only [heq]
        exact .of_free pid (IngestWorker.free _)
  · exact .of_transact (minor_deleteStoredObject _ _) pid (IngestWorker.free _)
  · exact .of_transact (minor_failAttachment _ _ _) pid (IngestWorker.free _)

theorem ReaperPhase.step_thread (phase : ReaperPhase) (pid : ℕ) (c : Choice Digest) :
    ThreadStep rt s a (phase.step s pid c) := by
  unfold ReaperPhase.step
  split
  · rcases s.transact_cases (claimTombstones (s.clock c.readAt) c.locked) with
      ⟨r, db', hx, heq⟩ | ⟨e, heq⟩
    · simp only [heq]
      exact .of_plain (t := { s with db := db' })
        (Minor.isPlain (minor_claimTombstones _ _) hx) rfl pid
        ((ReaperPhase.free _).bound _)
    · simp only [heq]
      exact .of_finish (Std.Refl.refl s.db) rfl pid
  · exact .of_finish (Std.Refl.refl s.db) rfl pid
  · unfold ReaperPhase.remove
    split
    · apply ThreadStep.of_same
      exacts [rfl, rfl, ReaperPhase.free _]
    · split
      · apply ThreadStep.of_same
        exacts [rfl, rfl, ReaperPhase.free _]
      · apply ThreadStep.of_same
        exacts [rfl, rfl, ReaperPhase.free _]
  · exact .of_transact (minor_finishTombstone _) pid (ReaperPhase.free _)
  · exact .of_transact (minor_retryTombstone _ _ _) pid (ReaperPhase.free _)

theorem UploadHandler.start_thread {pid : ℕ} {filename contentType : Option JsString}
    {c : Choice Digest} (hstep : UploadHandler.start rt s pid filename contentType c = some s') :
    ThreadStep rt s a s' := by
  unfold UploadHandler.start at hstep
  split at hstep
  · dsimp only at hstep
    split at hstep
    · cases hstep
      exact .of_retired (lawful_draw _) fun _ _ hp => hp
    · cases hstep
      have hkey : ∀ id, some s.db.nextId = some id → id < s.db.nextId + 1 := by
        rintro _ ⟨⟩
        exact Nat.lt_succ_self _
      apply ThreadStep.of_draw
      exacts [rfl, rfl, ⟨Proc.answers_of_none rfl, holds_of_none rfl, holds_of_none rfl, hkey⟩]
  · cases hstep

theorem UploadHandler.step_thread {h : UploadHandler}
    (hb : (Proc.upload h : Proc Digest).Bound s.db.threads) (pid : ℕ) (c : Choice Digest) :
    ThreadStep rt s a (h.step s pid c) := by
  have hkey : h.storageKey.id < s.db.nextId := hb.uploads _ rfl
  have hfails : ∀ failed, (Proc.upload { h with failed } : Proc Digest).Bound s.db.threads :=
    fun _ =>
    ⟨Proc.answers_of_none rfl, holds_of_none rfl, holds_of_none rfl, fun id hid => by
      cases hid; exact hkey⟩
  unfold UploadHandler.step
  split
  · exact .of_transact_finish (minor_deleteStoredObject _ _) pid
  · split
    · exact .of_become pid (hfails _)
    · rcases s.transact_cases
        (createUpload s.now h.filename h.contentType h.sizeBytes h.storageKey) with
        ⟨r, db', hx, heq⟩ | ⟨e, heq⟩
      · simp only [heq]
        exact .of_finish (t := { s with db := db' })
          ((createUpload_lawful hkey hx).mono fun _ => ThreadEvent.IsMinor.isPlain) rfl pid
      · simp only [heq]
        exact .of_become pid (hfails _)

/-! ### The operator -/

theorem operator_thread (request : OperatorRequest) :
    ThreadStep rt s (.operator request) (s.transact (request.transaction s.config s.now)).2 := by
  cases request with
  | assignTopic id topic title =>
      exact ⟨.assigned id topic title rfl (lawful_transact (assignTopic_threads _ _ _ _ _) s),
        fun _ _ hp => .inl hp⟩
  | setConversationState id state =>
      exact ⟨.overridden id state rfl (lawful_transact (setConversationState_threads _ _ _ _) s),
        fun _ _ hp => .inl hp⟩
  | deleteConversation id =>
      exact ⟨.deleted id rfl (lawful_transact (deleteConversation_threads _ _ _) s),
        fun _ _ hp => .inl hp⟩
  | grantIdentity entry => exact .of_minor (.bind (minor_grantIdentity entry) fun _ => .pure _)
  | revokeIdentity entry => exact .of_minor (.bind (minor_revokeIdentity entry) fun _ => .pure _)

/-! ### The system -/

theorem startJob_thread {pid : ℕ} {c : Choice Digest} {job : Job}
    (hstep : startJob rt s pid c job = some s') : ThreadStep rt s a s' := by
  cases job with
  | send request idempotencyKey =>
      simp only [startJob] at hstep
      split at hstep
      · cases hstep
        exact .of_free pid ⟨rfl, rfl, rfl, rfl⟩
      · cases hstep
  | batchDrain limit =>
      simp only [startJob] at hstep
      split at hstep
      · cases hstep
        exact BatchWorker.start_thread limit
      · cases hstep
  | entryDrain limit =>
      simp only [startJob] at hstep
      split at hstep
      · cases hstep
        exact .of_free pid ⟨rfl, rfl, rfl, rfl⟩
      · cases hstep
  | receive svixId event =>
      cases hstep
      exact .of_free pid ⟨rfl, rfl, rfl, rfl⟩
  | ingest =>
      simp only [startJob] at hstep
      split at hstep
      · cases hstep
        exact IngestWorker.start_thread pid c
      · cases hstep
  | reaper =>
      simp only [startJob] at hstep
      split at hstep
      · cases hstep
        exact .of_transact (minor_expireUnreferencedUploads _ _) pid (ReaperPhase.free _)
      · cases hstep
  | upload filename contentType => exact UploadHandler.start_thread hstep

variable [DecidableEq Digest]

theorem runProc_thread {pid : ℕ} {c : Choice Digest} {p : Proc Digest} (hs : s.db.Sound)
    (hreceived : Received s) (hruns : s.Runs pid p) (hb : p.Bound s.db.threads)
    (hstep : runProc rt s pid c p = some s') : ThreadStep rt s (.run pid c) s' := by
  cases p with
  | send h => exact SendHandler.step_thread hs hreceived hruns hb hstep
  | batchDrain w => exact BatchWorker.step_thread hstep
  | entryDrain w => exact EntryWorker.step_thread hb hstep
  | receive h => exact ReceiveHandler.step_thread hruns hstep
  | ingest w =>
      cases hstep
      exact IngestWorker.step_thread w pid c
  | reaper phase =>
      cases hstep
      exact ReaperPhase.step_thread phase pid c
  | upload h =>
      cases hstep
      exact UploadHandler.step_thread hb pid c

/-- What one step of the system does to the threads. -/
theorem step_thread (hs : s.db.Sound) (hreceived : Received s)
    (hb : ∀ pid p, s.Runs pid p → p.Bound s.db.threads) (hstep : step rt s a = some s') :
    ThreadStep rt s a s' := by
  cases a with
  | tick ms =>
      cases hstep
      exact .of_retired (Std.Refl.refl s.db) fun _ _ hp => hp
  | reconfigure config =>
      cases hstep
      exact .of_retired (Std.Refl.refl s.db) fun _ _ hp => hp
  | start pid job c =>
      simp only [step] at hstep
      split at hstep
      · exact startJob_thread hstep
      · cases hstep
  | run pid c =>
      obtain ⟨⟨q, p⟩, hp, hstep⟩ := Option.bind_eq_some_iff.mp hstep
      obtain rfl : q = pid := Table.key_of_get? hp
      exact runProc_thread hs hreceived hp (hb q p hp) hstep
  | crash pid =>
      cases hstep
      exact .of_finish (Std.Refl.refl s.db) rfl pid
  | reach callId accepted answer =>
      obtain ⟨provider, -, rfl⟩ := Option.map_eq_some_iff.mp hstep
      exact .of_retired (Std.Refl.refl s.db) fun _ _ hp => hp
  | deliveryWebhook svixId eventType emailId eventCreatedAt detail =>
      cases hstep
      exact .of_minor (minor_recordDeliveryWebhook _ _ _ _ _ _ _)
  | operator request =>
      cases hstep
      exact operator_thread request

/-! ### Reachable states -/

/-- The constraints of the database hold, and the processes know what they carry. -/
structure Threaded (s : System Digest) : Prop where
  received : Received s
  sound : s.db.Sound
  bound : ∀ pid p, s.Runs pid p → p.Bound s.db.threads

omit [DecidableEq Digest] in
theorem threaded_initial (config : Config) (now : Time) :
    Threaded (System.initial config now : System Digest) where
  received := received_initial config now
  sound := sound_initial
  bound := by simp [System.initial, System.Runs, Table.empty, Table.get?]

/-- Every step of a threaded system has its event. -/
theorem Threaded.step (h : Threaded s) (hstep : step rt s a = some s') :
    Threading rt s a s' ∧ Threaded s' := by
  have hthread := step_thread h.sound h.received h.bound hstep
  refine ⟨hthread.threading, (step_effect hstep).received h.received,
    hthread.threading.keeps h.sound, fun pid p hp => ?_⟩
  rcases hthread.binds pid p hp with hold | hnew
  · exact (h.bound pid p hold).later hthread.threading.later
  · exact hnew

theorem Reachable.threaded (h : Reachable rt s) : Threaded s := by
  obtain ⟨config, now, hrun⟩ := h
  exact hrun.invariant (threaded_initial config now) fun _ _ _ hI _ hstep => (hI.step hstep).2

end ResendConversation
