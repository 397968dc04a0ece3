import ResendConversation.Effects
import ResendConversation.StatementSequences
import ResendConversation.Storing

/-! # The statements of a step

`step_performs`: every step of the system performs routine statements and those of its grant
on the database.  `System.grant` names the grant of a step, and the lemmas after it say which
steps may make each kind of statement. -/

namespace ResendConversation

open Foundation Tx

variable {Digest : Type} {rt : Runtime Digest} {s s' : System Digest}

/-! ### Grants -/

/-- The grant of a step that asks the provider for the Message-ID of a message. -/
def Grant.retrieving (c : Choice Digest) : Grant Digest where
  identify id := ∃ createdAt, c.retrieved = some (id, createdAt)
  delete := Database.Empties
  rethread := True

/-- The grant of the removal of a tombstone whose lease is held. -/
def Grant.finishing (db : Database Digest) (tombstone : ClaimedTombstone) : Grant Digest where
  finish key := ∃ t ∈ db.tombstones, t.id = tombstone.id ∧
    t.leaseToken = some tombstone.leaseToken ∧ t.storageKey = key

/-- The grant of an upload request whose object is written. -/
def Grant.uploading (now : Time) (h : UploadHandler) : Grant Digest where
  upload a := a =
    { id := a.id
      source := .upload
      state := .stored
      filename := h.filename
      contentType := h.contentType
      sizeBytes := h.sizeBytes
      storageKey := h.storageKey
      nextAttemptAt := now
      createdAt := now }

/-- The grant of the next step of a process. -/
def Proc.grant (rt : Runtime Digest) (s : System Digest) (c : Choice Digest) : Proc Digest →
    Grant Digest
  | .send h =>
      match h.phase with
      | .transact parent => .sending (h.context rt s c) parent s.db.nextId
      | .reopenTransact _ => .sending (h.context rt s c) none s.db.nextId
      | .retrieveMessageId _ _ => .retrieving c
      | .deliver _ (.hydrate _) => .retrieving c
      | _ => .routine
  | .receive h =>
      match h.phase with
      | .hydrate _ _ => .retrieving c
      | .project email => .projecting rt s.now h.event email
      | _ => .routine
  | .reaper (.finishing t _) => .finishing s.db t
  | .upload h => .uploading s.now h
  | .ingest _ => { ingest := True }
  | _ => .routine

/-- The grant of a step. -/
def System.grant (rt : Runtime Digest) (s : System Digest) : Action Digest → Grant Digest
  | .run pid c => ((s.procs.get? pid).map fun p => p.2.grant rt s c).getD .routine
  | .start _ .ingest _ => { ingest := True }
  | .start _ .reaper _ => { expire := True }
  | .operator request => .operating request
  | _ => .routine

theorem Grant.recording_le {c : Choice Digest} {internetMessageId : JsString} {createdAt : Time}
    (h : c.retrieved = some (internetMessageId, createdAt)) :
    (Grant.recording internetMessageId).Le (Grant.retrieving c) where
  identify := by
    rintro id rfl
    exact ⟨createdAt, h⟩
  delete := fun _ _ h => h
  rethread := id

/-! ### Steps of a process -/

section
variable {G : Grant Digest}

theorem performs_transact_of {α : Type} {x : Transaction Digest α}
    (hx : ∀ r db', x s.db = .ok (r, db') → Performs G s.db db') :
    Performs G s.db (s.transact x).2.db := by
  rcases s.transact_cases x with ⟨r, db', h, heq⟩ | ⟨e, heq⟩
  · rw [heq]
    exact hx r db' h
  · rw [heq]
    exact Std.Refl.refl _

theorem performs_transact {α : Type} {x : Transaction Digest α} (hx : Performing G x) :
    Performs G s.db (s.transact x).2.db :=
  performs_transact_of fun _ _ h => hx h

/-- The identifier of a provider call is drawn. -/
theorem performs_draw (db : Database Digest) : Performs G db { db with nextId := db.nextId + 1 } :=
  .of_same (Nat.le_succ _) rfl

end

namespace SendHandler

variable {h : SendHandler Digest} {pid : ℕ} {c : Choice Digest} {G : Grant Digest}

theorem settle_performs (d : Delivery) (result : Except SendError JsString) :
    Performs G s.db (h.settle s pid d result).db := by
  unfold settle
  split
  next id =>
    have hsent := performs_transact (G := G) (s := s) (performs_recordSent s.config d.messageId id)
    split
    next heq =>
      rw [heq] at hsent
      exact hsent
    next heq =>
      rw [heq] at hsent
      exact hsent
  next error => exact performs_transact (performs_recordSendError _ _)

theorem beginDelivery_performs {d : Delivery} {attachments : List SendEmailAttachmentInput}
    (hs : h.beginDelivery s pid d attachments = some s') : Performs G s.db s'.db := by
  unfold beginDelivery at hs
  split at hs
  · cases hs
  split at hs
  · cases hs
    exact Std.Refl.refl _
  split at hs
  · cases hs
    exact Std.Refl.refl _
  split at hs
  · cases hs
    exact settle_performs _ _
  split at hs
  · cases hs
    exact performs_draw _
  · cases hs
    exact settle_performs _ _

theorem hydrateSent_performs (d : Delivery) (m : EmailMessage Digest) :
    Performs (.retrieving c) s.db (h.hydrateSent rt s pid d m c).db := by
  unfold hydrateSent
  split
  · exact Std.Refl.refl _
  split
  · exact Std.Refl.refl _
  next internetMessageId createdAt hretrieved =>
    have hrecord :=
      (performs_transact (s := s) (performs_recordOutboundInternetMessageId rt s.config c.scan
      s.now m.id internetMessageId createdAt)).mono (Grant.recording_le hretrieved)
    split
    next heq =>
      rw [heq] at hrecord
      exact hrecord
    next heq =>
      rw [heq] at hrecord
      exact hrecord

theorem retrieveMessageId_performs (parent stored : EmailMessage Digest) :
    Performs (.retrieving c) s.db (h.retrieveMessageId rt s pid parent stored c).db := by
  unfold retrieveMessageId
  split
  · exact Std.Refl.refl _
  next internetMessageId createdAt hretrieved =>
    have hname : Performing (.recording internetMessageId) (updateMessage stored.id fun m =>
        { m with internetMessageId := some internetMessageId } : Transaction Digest _) := by
      intro db m db' hx
      obtain ⟨-, -, -, -, rfl⟩ := updateMessage_eq_ok.mp hx
      exact .single (.name stored.id internetMessageId rfl)
    have hwrite := (performs_transact (s := s) (.ite (c := stored.direction = .outbound)
      (performs_recordOutboundInternetMessageId rt s.config c.scan s.now stored.id
        internetMessageId createdAt)
      hname)).mono (Grant.recording_le hretrieved)
    dsimp only
    split
    next heq =>
      rw [heq] at hwrite
      exact hwrite
    next heq =>
      rw [heq] at hwrite
      exact hwrite

theorem reopenTransact_performs {conversation : EmailConversation}
    (hs : h.reopenTransact rt s pid conversation c = some s') :
    Performs (.sending (h.context rt s c) none s.db.nextId) s.db s'.db := by
  unfold reopenTransact at hs
  split at hs
  next queued value hrequest =>
    have hreopen := performs_transact_of (s := s) fun r db' hx =>
      @performs_reopenConversation _ (h.context rt s c) _ db' _ _ conversation none r hrequest hx
    dsimp only at hs
    split at hs
    all_goals
      next heq =>
        rw [heq] at hreopen
        cases hs
        exact hreopen
  · cases hs

theorem loadParent_db (hs : h.loadParent s pid = some s') : s'.db = s.db := by
  unfold loadParent at hs
  split at hs
  · repeat' split at hs
    all_goals
      cases hs
      rfl
  · cases hs

theorem ensureMessageId_db (parent : EmailMessage Digest) :
    (h.ensureMessageId s pid parent).db = s.db := by
  unfold ensureMessageId
  repeat' split
  all_goals rfl

theorem recover_db (messageId : Uuid) : (h.recover s pid messageId).db = s.db := by
  unfold recover
  repeat' split
  all_goals rfl

theorem reload_db (messageId : Uuid) (mode : ReloadMode) :
    (h.reload s pid messageId mode).db = s.db := by
  unfold reload
  repeat' split
  all_goals rfl

theorem deliver_performs {d : Delivery} {phase : DeliveryPhase Digest}
    (hphase : h.phase = .deliver d phase) (hs : h.deliver rt s pid d c phase = some s') :
    Performs (Proc.grant rt s c (.send h)) s.db s'.db := by
  cases phase with
  | prepare =>
      simp only [deliver] at hs
      split at hs
      all_goals
        cases hs
        exact Std.Refl.refl _
  | lock attachments =>
      simp only [deliver] at hs
      split at hs
      · cases hs
        exact Std.Refl.refl _
      · exact beginDelivery_performs hs
  | calling m callId =>
      simp only [deliver] at hs
      split at hs
      · cases hs
        exact Std.Refl.refl _
      split at hs
      · cases hs
      next observation _ =>
        cases hs
        exact settle_performs
          (s := { s with provider := s.provider.observe callId observation }) _ _
  | hydrate m =>
      simp only [deliver, Option.some.injEq] at hs
      subst hs
      simp only [Proc.grant, hphase]
      exact hydrateSent_performs _ _

theorem step_performs [DecidableEq Digest] (hs : h.step rt s pid c = some s') :
    Performs (Proc.grant rt s c (.send h)) s.db s'.db := by
  unfold step at hs
  split at hs
  next =>
    split at hs
    all_goals
      cases hs
      exact Std.Refl.refl _
  next =>
    split at hs
    all_goals
      cases hs
      exact Std.Refl.refl _
  next =>
    rw [loadParent_db hs]
    exact Std.Refl.refl _
  next =>
    cases hs
    rw [ensureMessageId_db]
    exact Std.Refl.refl _
  next hphase =>
    cases hs
    simp only [Proc.grant, hphase]
    exact retrieveMessageId_performs _ _
  next hphase =>
    cases hs
    simp only [Proc.grant, hphase]
    exact performs_transact_of fun _ _ hx => performs_storeMessage hx
  next =>
    cases hs
    exact Std.Refl.refl _
  next =>
    repeat' split at hs
    all_goals
      cases hs
      try exact Std.Refl.refl _
  next hphase =>
    simp only [Proc.grant, hphase]
    exact reopenTransact_performs hs
  next =>
    split at hs
    all_goals
      cases hs
      exact Std.Refl.refl _
  next =>
    cases hs
    rw [recover_db]
    exact Std.Refl.refl _
  next =>
    cases hs
    exact performs_transact (performs_expirePending _)
  next hphase => exact deliver_performs hphase hs
  next =>
    cases hs
    rw [reload_db]
    exact Std.Refl.refl _
  next => cases hs

end SendHandler

namespace BatchWorker

variable {pid : ℕ} {c : Choice Digest} {G : Grant Digest}

theorem claimOutboxBatch_performs (limit : ℕ) :
    Performs G s.db (claimOutboxBatch s limit c).2.db := by
  have hclaim := performs_transact (G := G) (s := s)
    (performs_claimTransaction (s.clock c.readAt) limit c.locked)
  unfold claimOutboxBatch
  split
  all_goals
    next heq =>
      rw [heq] at hclaim
      exact hclaim

theorem start_performs (limit : ℕ) : Performs G s.db (start s pid limit c).db := by
  have hclaim := claimOutboxBatch_performs (G := G) (s := s) (c := c) limit
  unfold start
  split
  all_goals
    next heq =>
      rw [heq] at hclaim
      exact hclaim

theorem send_performs (batch : ClaimedBatch Digest) (claimedAt : Time) :
    Performs G s.db (send s pid batch claimedAt).db := by
  unfold send
  dsimp only
  split
  · exact Std.Refl.refl _
  split
  · exact performs_draw _
  · exact Std.Refl.refl _

theorem step_performs {w : BatchWorker Digest} (hs : w.step s pid c = some s') :
    Performs G s.db s'.db := by
  unfold step at hs
  split at hs
  · cases hs
    exact send_performs _ _
  · split at hs
    · cases hs
    · cases hs
      exact Std.Refl.refl _
  next batch decision =>
    have hend :=
      performs_transact (G := G) (s := s) (performs_finalizeBatch s.config s.now batch decision)
    split at hs
    all_goals
      next heq =>
        rw [heq] at hend
        cases hs
        exact hend
  · cases hs

end BatchWorker

namespace EntryWorker

variable {pid : ℕ} {c : Choice Digest} {G : Grant Digest}

theorem claim_performs (remaining : ℕ) (result : AttachmentOutboxDrainResult) :
    Performs G s.db (claim s pid remaining result c).db := by
  have hclaim :=
    performs_transact (G := G) (s := s) (performs_claimEntry (s.clock c.readAt) c.locked)
  unfold claim
  split
  all_goals
    next heq =>
      rw [heq] at hclaim
      exact hclaim

theorem send_performs (entry : ClaimedEntry Digest) (claimedAt : Time) (fails : Bool)
    (continueWith : EntryPhase Digest → Proc Digest) :
    Performs G s.db (send s pid entry claimedAt fails continueWith).db := by
  unfold send
  split
  · exact Std.Refl.refl _
  split
  · exact Std.Refl.refl _
  dsimp only
  split
  · exact performs_draw _
  · exact Std.Refl.refl _

theorem finish_performs (remaining : ℕ) (result : AttachmentOutboxDrainResult)
    (entry : ClaimedEntry Digest) (decision : EntryDecision) :
    Performs G s.db (finish s pid remaining result entry decision).db := by
  have hend := performs_transact (G := G) (s := s) (performs_endEntry s.config s.now entry decision)
  unfold finish
  split
  next heq =>
    rw [heq] at hend
    exact hend
  next heq =>
    rw [heq] at hend
    split
    · exact hend
    · exact hend

theorem step_performs {w : EntryWorker Digest} (hs : w.step s pid c = some s') :
    Performs G s.db s'.db := by
  unfold step at hs
  split at hs
  · cases hs
    exact Std.Refl.refl _
  · cases hs
    exact claim_performs _ _
  · cases hs
    exact send_performs _ _ _ _
  · split at hs
    · cases hs
    · cases hs
      exact Std.Refl.refl _
  · cases hs
    exact finish_performs _ _ _ _
  · cases hs

end EntryWorker

namespace ReceiveHandler

variable {h : ReceiveHandler Digest} {pid : ℕ} {c : Choice Digest}

theorem hydrate_performs (hydration : Hydration Digest) (email : Option ResendEmail) :
    Performs (.retrieving c) s.db (h.hydrate rt s pid hydration email c).db := by
  unfold hydrate
  split
  · repeat' split
    all_goals exact Std.Refl.refl _
  next m pending _ =>
    split
    · exact Std.Refl.refl _
    next internetMessageId createdAt hretrieved =>
      have hrecord :=
        (performs_transact (s := s) (performs_recordOutboundInternetMessageId rt s.config c.scan
        s.now m.id internetMessageId createdAt)).mono (Grant.recording_le hretrieved)
      split
      all_goals
        next heq =>
          rw [heq] at hrecord
          exact hrecord

theorem project_performs (email : ResendEmail) :
    Performs (.projecting rt s.now h.event email) s.db (h.project rt s pid email c).db := by
  unfold project
  split
  · exact Std.Refl.refl _
  have hproject :=
    performs_transact (s := s) (performs_projectInboundEmail rt s.config c.scan s.now h.event
    email (s.config.resendReplyTo.getD []))
  split
  all_goals
    next heq =>
      rw [heq] at hproject
      exact hproject

theorem step_performs [DecidableEq Digest] (hs : h.step rt s pid c = some s') :
    Performs (Proc.grant rt s c (.receive h)) s.db s'.db := by
  unfold step at hs
  split at hs
  next =>
    cases hs
    exact performs_transact (performs_createWebhookEvent _ _ _ _ _ _)
  next =>
    cases hs
    exact Std.Refl.refl _
  next =>
    cases hs
    exact Std.Refl.refl _
  next hphase =>
    cases hs
    simp only [Proc.grant, hphase]
    exact hydrate_performs _ _
  next hphase =>
    cases hs
    simp only [Proc.grant, hphase]
    exact project_performs _
  next =>
    split at hs
    all_goals
      cases hs
      exact Std.Refl.refl _
  next => cases hs
  next => cases hs

end ReceiveHandler

namespace IngestWorker

variable {pid : ℕ} {c : Choice Digest} {G : Grant Digest}

theorem start_performs (hingest : G.ingest) : Performs G s.db (start s pid c).db := by
  have hclaim := performs_transact (G := G) (s := s)
    (performs_claimPendingAttachments hingest (s.clock c.readAt) c.locked)
  unfold start
  split
  all_goals
    next heq =>
      rw [heq] at hclaim
      exact hclaim

theorem fetch_db (w : IngestWorker) (a : ClaimedAttachment) : (w.fetch s pid a c).db = s.db := by
  unfold fetch
  repeat' split
  all_goals rfl

theorem store_performs (hingest : G.ingest) (w : IngestWorker) (a : ClaimedAttachment)
    (sizeBytes : ℕ) :
    Performs G s.db (w.store s pid a sizeBytes c).db := by
  unfold store
  split
  · exact Std.Refl.refl _
  have hstore := performs_transact (G := G) (s := s) (performs_storeIngested hingest a sizeBytes)
  split
  all_goals
    next heq =>
      rw [heq] at hstore
      exact hstore

theorem step_performs (hingest : G.ingest) (w : IngestWorker) :
    Performs G s.db (w.step s pid c).db := by
  unfold step
  split
  · split
    · exact Std.Refl.refl _
    · exact Std.Refl.refl _
  · rw [fetch_db]
    exact Std.Refl.refl _
  · exact store_performs hingest _ _ _
  · exact performs_transact (performs_deleteStoredObject _ _)
  · exact performs_transact (performs_failAttachment hingest _ _ _)

end IngestWorker

namespace ReaperPhase

variable {pid : ℕ} {c : Choice Digest}

theorem start_performs {G : Grant Digest} (hexpire : G.expire) :
    Performs G s.db (start s pid c).db :=
  performs_transact (performs_expireUnreferencedUploads _ _ hexpire)

theorem performs_finishTombstone (t : ClaimedTombstone) :
    Performs (.finishing s.db t) s.db (s.transact (finishTombstone t)).2.db :=
  .single (.finish _ fun row hrow hp => by
    simp only [Bool.and_eq_true, beq_iff_eq] at hp
    exact ⟨row, hrow, hp.1, hp.2, rfl⟩)

theorem remove_db (t : ClaimedTombstone) (rest : List ClaimedTombstone) :
    (remove s pid t rest c).db = s.db := by
  unfold remove
  repeat' split
  all_goals rfl

theorem step_performs (phase : ReaperPhase) :
    Performs (Proc.grant rt s c (.reaper phase)) s.db (phase.step s pid c).db := by
  cases phase with
  | claiming =>
      have hclaim := performs_transact (G := Proc.grant rt s c (.reaper .claiming)) (s := s)
        (performs_claimTombstones (s.clock c.readAt) c.locked)
      simp only [step]
      split
      all_goals
        next heq =>
          rw [heq] at hclaim
          exact hclaim
  | deleting tombstones =>
      cases tombstones with
      | nil => exact Std.Refl.refl _
      | cons t rest =>
          simp only [step]
          rw [remove_db]
          exact Std.Refl.refl _
  | finishing t rest => exact performs_finishTombstone t
  | retrying t name rest => exact performs_transact (performs_retryTombstone _ _ _)

end ReaperPhase

namespace UploadHandler

variable {pid : ℕ} {c : Choice Digest} {G : Grant Digest}

theorem start_performs {filename contentType : Option JsString}
    (hs : start rt s pid filename contentType c = some s') : Performs G s.db s'.db := by
  unfold start at hs
  split at hs
  · dsimp only at hs
    split at hs
    all_goals
      cases hs
      exact performs_draw _
  · cases hs

theorem step_performs (h : UploadHandler) :
    Performs (Proc.grant rt s c (.upload h)) s.db (h.step s pid c).db := by
  unfold step
  split
  · exact performs_transact (performs_deleteStoredObject _ _)
  split
  · exact Std.Refl.refl _
  have hcreate := performs_transact (G := Proc.grant rt s c (.upload h)) (s := s)
    (@performs_createUpload _ _ s.now h.filename h.contentType h.sizeBytes h.storageKey
      fun _ => rfl)
  split
  all_goals
    next heq =>
      rw [heq] at hcreate
      exact hcreate

end UploadHandler

/-! ### Steps of the system -/

variable [DecidableEq Digest]

theorem runProc_performs {pid : ℕ} {c : Choice Digest} {p : Proc Digest}
    (hs : runProc rt s pid c p = some s') : Performs (p.grant rt s c) s.db s'.db := by
  cases p with
  | send h => exact SendHandler.step_performs hs
  | batchDrain w => exact BatchWorker.step_performs hs
  | entryDrain w => exact EntryWorker.step_performs hs
  | receive h => exact ReceiveHandler.step_performs hs
  | ingest w =>
      cases hs
      exact IngestWorker.step_performs trivial w
  | reaper phase =>
      cases hs
      exact ReaperPhase.step_performs phase
  | upload h =>
      cases hs
      exact UploadHandler.step_performs h

omit [DecidableEq Digest] in
theorem startJob_performs {pid : ℕ} {job : Job} {c : Choice Digest}
    (hs : startJob rt s pid c job = some s') :
    Performs (s.grant rt (.start pid job c)) s.db s'.db := by
  cases job with
  | send request idempotencyKey =>
      simp only [startJob] at hs
      split at hs
      · cases hs
        exact Std.Refl.refl _
      · cases hs
  | batchDrain limit =>
      simp only [startJob] at hs
      split at hs
      · cases hs
        exact BatchWorker.start_performs _
      · cases hs
  | entryDrain limit =>
      simp only [startJob] at hs
      split at hs
      · cases hs
        exact Std.Refl.refl _
      · cases hs
  | receive svixId event =>
      cases hs
      exact Std.Refl.refl _
  | ingest =>
      simp only [startJob] at hs
      split at hs
      · cases hs
        exact IngestWorker.start_performs trivial
      · cases hs
  | reaper =>
      simp only [startJob] at hs
      split at hs
      · cases hs
        exact ReaperPhase.start_performs trivial
      · cases hs
  | upload filename contentType => exact UploadHandler.start_performs hs

/-- A step of the system performs routine statements, and those of its grant. -/
theorem step_performs {a : Action Digest} (hs : step rt s a = some s') :
    Performs (s.grant rt a) s.db s'.db := by
  cases a with
  | tick ms =>
      cases hs
      exact Std.Refl.refl _
  | reconfigure config =>
      cases hs
      exact Std.Refl.refl _
  | start pid job c =>
      simp only [step] at hs
      split at hs
      · exact startJob_performs hs
      · cases hs
  | run pid c =>
      obtain ⟨⟨q, p⟩, hp, hs⟩ := Option.bind_eq_some_iff.mp hs
      simp only [System.grant, hp]
      exact runProc_performs hs
  | crash pid =>
      cases hs
      exact Std.Refl.refl _
  | reach callId accepted answer =>
      obtain ⟨provider, -, rfl⟩ := Option.map_eq_some_iff.mp hs
      exact Std.Refl.refl _
  | deliveryWebhook svixId eventType emailId eventCreatedAt deliveryDetail =>
      cases hs
      exact performs_transact (performs_recordDeliveryWebhook _ _ _ _ _ _ _)
  | operator request =>
      cases hs
      exact performs_transact (performs_operator _ _ _)

/-! ### What a step may write -/

omit [DecidableEq Digest]

/-- A property of grants that neither routine grants nor those of the ingest runtime have, of the
grant of a step. -/
theorem System.grant_cases {P : Grant Digest → Prop} {a : Action Digest} (h : P (s.grant rt a))
    (hroutine : ¬P .routine) (hingest : ¬P { ingest := True }) :
    (∃ pid c p, a = .run pid c ∧ s.Runs pid p ∧ P (p.grant rt s c)) ∨
      (∃ pid c, a = .start pid .reaper c ∧ P { expire := True }) ∨
      ∃ request, a = .operator request ∧ P (.operating request) := by
  cases a with
  | run pid c =>
      cases hp : s.procs.get? pid with
      | none => exact absurd (by simpa [System.grant, hp] using h) hroutine
      | some p =>
          have hruns : s.Runs pid p.2 :=
            hp.trans (congrArg some (Prod.ext (Table.key_of_get? hp) rfl))
          exact .inl ⟨pid, c, p.2, rfl, hruns, by simpa [System.grant, hp] using h⟩
  | start pid job c =>
      cases job with
      | reaper => exact .inr (.inl ⟨pid, c, rfl, h⟩)
      | ingest => exact absurd h hingest
      | _ => exact absurd h hroutine
  | operator request => exact .inr (.inr ⟨request, rfl, h⟩)
  | _ => exact absurd h hroutine

/-- The handler is about to run a transaction that stores its message. -/
def SendHandler.Transacts (h : SendHandler Digest) (parent : Option ReplyParent) : Prop :=
  h.phase = .transact parent ∨ parent = none ∧
    ∃ conversation, h.phase = .reopenTransact conversation

/-- The request of a process whose next step is a send transaction. -/
def Proc.transacting : Proc Digest → Option SendRequest
  | .send h =>
      match h.phase with
      | .transact _ => some h.request
      | .reopenTransact _ => some h.request
      | _ => none
  | _ => none

theorem SendHandler.Transacts.transacting {h : SendHandler Digest} {parent : Option ReplyParent}
    (ht : h.Transacts parent) : (Proc.send h).transacting = some h.request := by
  rcases ht with hphase | ⟨-, conversation, hphase⟩
  · simp [Proc.transacting, hphase]
  · simp [Proc.transacting, hphase]

/-- A send transaction stores nothing, or it is one that commits. -/
theorem transacting_cases [DecidableEq Digest] {pid : ℕ} {c : Choice Digest}
    (hs : step rt s (.run pid c) = some s') {p : Proc Digest} (hruns : s.Runs pid p)
    {request : SendRequest} (hp : p.transacting = some request) :
    s'.db = s.db ∨ ∃ (h : SendHandler Digest) (id : Uuid), h.request = request ∧
      ((∃ parent, SendHandler.storeMessage (h.context rt s c) parent s.db = .ok (id, s'.db)) ∨
        ∃ queued value conversation, h.request = .opening queued value ∧
          reopenConversation (h.context rt s c) value conversation s.db =
            .ok (some id, s'.db)) := by
  simp only [step, show s.procs.get? pid = some (pid, p) from hruns, Option.bind_some] at hs
  cases p with
  | send h =>
      simp only [Proc.transacting] at hp
      split at hp
      next parent hphase =>
        cases hp
        simp only [runProc, SendHandler.step, hphase, Option.some.injEq] at hs
        subst hs
        rcases s.transact_cases (SendHandler.storeMessage (h.context rt s c) parent) with
          ⟨id, db', hx, heq⟩ | ⟨e, heq⟩
        · exact .inr ⟨h, id, rfl, .inl ⟨parent, by rw [heq]; exact hx⟩⟩
        · exact .inl (by rw [heq]; rfl)
      next conversation hphase =>
        cases hp
        simp only [runProc, SendHandler.step, hphase] at hs
        unfold SendHandler.reopenTransact at hs
        split at hs
        next queued value hrequest =>
          dsimp only at hs
          rcases s.transact_cases (reopenConversation (h.context rt s c) value conversation) with
            ⟨r, db', hx, heq⟩ | ⟨e, heq⟩
          · rw [heq] at hs
            cases r with
            | none =>
                cases hs
                exact .inl (reopenConversation_none hx)
            | some id =>
                cases hs
                exact .inr ⟨h, id, rfl, .inr ⟨queued, value, conversation, hrequest, hx⟩⟩
          · rw [heq] at hs
            cases hs
            exact .inl rfl
        · cases hs
      · cases hp
  | _ => cases hp

/-- Messages are inserted by send transactions and by projections. -/
theorem System.message_granted {a : Action Digest} {db : Database Digest} {m : EmailMessage Digest}
    (hm : (s.grant rt a).message db m) : ∃ pid c, a = .run pid c ∧
      ((∃ h parent, s.Runs pid (.send h) ∧ h.Transacts parent ∧
        (h.context rt s c).Inserts parent db m) ∨
        ∃ h email, s.Runs pid (.receive h) ∧ h.phase = .project email ∧
          (Grant.projecting rt s.now h.event email).message db m) := by
  rcases System.grant_cases (P := fun G => G.message db m) hm (fun h => h) (fun h => h) with
    ⟨pid, c, p, rfl, hruns, hp⟩ | ⟨pid, c, -, hp⟩ | ⟨request, -, hp⟩
  · refine ⟨pid, c, rfl, ?_⟩
    cases p with
    | send h =>
        refine .inl ?_
        simp only [Proc.grant] at hp
        split at hp
        next parent hphase => exact ⟨h, parent, hruns, .inl hphase, hp⟩
        next conversation hphase => exact ⟨h, none, hruns, .inr ⟨rfl, conversation, hphase⟩, hp⟩
        all_goals exact hp.elim
    | receive h =>
        refine .inr ?_
        simp only [Proc.grant] at hp
        split at hp
        · exact hp.elim
        next email hphase => exact ⟨h, email, hruns, hphase, hp⟩
        · exact hp.elim
    | reaper phase => cases phase <;> exact hp.elim
    | _ => exact hp.elim
  · exact hp.elim
  · exact hp.elim

/-- Uploads are bound by send transactions. -/
theorem System.bind_granted {a : Action Digest} {m : Uuid} (hm : (s.grant rt a).bind m) :
    ∃ pid c h parent, a = .run pid c ∧ s.Runs pid (.send h) ∧ h.Transacts parent := by
  rcases System.grant_cases (P := fun G => G.bind m) hm (fun h => h) (fun h => h) with
    ⟨pid, c, p, rfl, hruns, hp⟩ | ⟨pid, c, -, hp⟩ | ⟨request, -, hp⟩
  · cases p with
    | send h =>
        simp only [Proc.grant] at hp
        split at hp
        next parent hphase => exact ⟨pid, c, h, parent, rfl, hruns, .inl hphase⟩
        next conversation hphase =>
          exact ⟨pid, c, h, none, rfl, hruns, .inr ⟨rfl, conversation, hphase⟩⟩
        all_goals exact hp.elim
    | receive h =>
        simp only [Proc.grant] at hp
        split at hp
        all_goals exact hp.elim
    | reaper phase => cases phase <;> exact hp.elim
    | _ => exact hp.elim
  · exact hp.elim
  · exact hp.elim

/-- The allowlist is the operator's. -/
theorem System.allowlist_granted {a : Action Digest} (h : (s.grant rt a).allowlist) :
    ∃ entry, a = .operator (.grantIdentity entry) ∨ a = .operator (.revokeIdentity entry) := by
  rcases System.grant_cases (P := fun G => G.allowlist) h (fun h => h) (fun h => h) with
    ⟨pid, c, p, -, -, hp⟩ | ⟨pid, c, -, hp⟩ | ⟨request, rfl, entry, hp⟩
  · refine False.elim ?_
    cases p with
    | send h =>
        simp only [Proc.grant] at hp
        split at hp
        all_goals exact hp.elim
    | receive h =>
        simp only [Proc.grant] at hp
        split at hp
        all_goals exact hp.elim
    | reaper phase => cases phase <;> exact hp.elim
    | _ => exact hp.elim
  · exact hp.elim
  · exact ⟨entry, hp.imp (congrArg Action.operator) (congrArg Action.operator)⟩

/-- Events are removed by the deletion of their conversation. -/
theorem System.purge_granted {a : Action Digest} {c : Uuid} (h : (s.grant rt a).purge c) :
    a = .operator (.deleteConversation c) := by
  rcases System.grant_cases (P := fun G => G.purge c) h (fun h => h) (fun h => h) with
    ⟨pid, choice, p, -, -, hp⟩ | ⟨pid, choice, -, hp⟩ | ⟨request, rfl, hp⟩
  · refine False.elim ?_
    cases p with
    | send h =>
        simp only [Proc.grant] at hp
        split at hp
        all_goals exact hp.elim
    | receive h =>
        simp only [Proc.grant] at hp
        split at hp
        all_goals exact hp.elim
    | reaper phase => cases phase <;> exact hp.elim
    | _ => exact hp.elim
  · exact hp.elim
  · exact congrArg Action.operator hp

/-- Attachments are claimed, stored and failed by the ingest runtime. -/
theorem System.ingest_granted {a : Action Digest} (h : (s.grant rt a).ingest) :
    (∃ pid c, a = .start pid .ingest c) ∨ ∃ pid c w, a = .run pid c ∧ s.Runs pid (.ingest w) := by
  cases a with
  | run pid c =>
      cases hp : s.procs.get? pid with
      | none =>
          simp only [System.grant, hp] at h
          exact h.elim
      | some p =>
          obtain ⟨q, p⟩ := p
          have hruns : s.Runs pid p :=
            hp.trans (congrArg some (Prod.ext (Table.key_of_get? hp) rfl))
          simp only [System.grant, hp] at h
          cases p with
          | ingest w => exact .inr ⟨pid, c, w, rfl, hruns⟩
          | send handler =>
              simp only [Option.map_some, Option.getD_some, Proc.grant] at h
              split at h
              all_goals exact h.elim
          | receive handler =>
              simp only [Option.map_some, Option.getD_some, Proc.grant] at h
              split at h
              all_goals exact h.elim
          | reaper phase => cases phase <;> exact h.elim
          | _ => exact h.elim
  | start pid job c =>
      cases job with
      | ingest => exact .inl ⟨pid, c, rfl⟩
      | _ => exact h.elim
  | operator request => cases request <;> exact h.elim
  | _ => exact h.elim

end ResendConversation
