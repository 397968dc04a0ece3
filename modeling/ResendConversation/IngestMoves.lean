import ResendConversation.HeldAttachments

/-! # The moves of the ingest runtime

`ingest_moves` says everything that a step of the system does to the attachments that are held
and to the columns of the attachment rows that the ingest runtime writes. -/

namespace ResendConversation

open Foundation Tx ResendConversation.System

variable {Digest : Type} {rt : Runtime Digest} {s s' : System Digest} {pid : ℕ} {c : Choice Digest}

/-! ### Rows -/

/-- The columns that the ingest runtime depends on stay. -/
structure EmailAttachment.Undisturbed (a a' : EmailAttachment) : Prop where
  id : a'.id = a.id
  source : a'.source = a.source
  attemptCount : a'.attemptCount = a.attemptCount
  leaseToken : a'.leaseToken = a.leaseToken
  leaseUntil : a'.leaseUntil = a.leaseUntil
  state : a'.state = a.state

/-- A row that no worker has claimed yet. -/
structure EmailAttachment.Fresh (a : EmailAttachment) : Prop where
  leaseToken : a.leaseToken = none
  state : a.source = .inbound → a.state = .pending
  leaseUntil : a.source = .inbound → a.leaseUntil = none
  attemptCount : a.source = .inbound → a.attemptCount = 0

/-- The ingest runtime wrote no row. -/
structure Undisturbed (db db' : Database Digest) : Prop where
  nextId : db.nextId ≤ db'.nextId
  origin : ∀ a' ∈ db'.attachments,
    (∃ a ∈ db.attachments, a.Undisturbed a') ∨ (db.nextId ≤ a'.id ∧ a'.Fresh)

theorem EmailAttachment.Undisturbed.refl (a : EmailAttachment) :
    a.Undisturbed a := ⟨rfl, rfl, rfl, rfl, rfl, rfl⟩

theorem EmailAttachment.Undisturbed.trans {a b d : EmailAttachment} (h : a.Undisturbed b)
    (h' : b.Undisturbed d) :
    a.Undisturbed d where
  id := h'.id.trans h.id
  source := h'.source.trans h.source
  attemptCount := h'.attemptCount.trans h.attemptCount
  leaseToken := h'.leaseToken.trans h.leaseToken
  leaseUntil := h'.leaseUntil.trans h.leaseUntil
  state := h'.state.trans h.state

theorem EmailAttachment.Fresh.undisturbed {a a' : EmailAttachment} (h : a.Fresh)
    (h' : a.Undisturbed a') :
    a'.Fresh where
  leaseToken := h'.leaseToken.trans h.leaseToken
  state hsource := h'.state.trans (h.state (h'.source ▸ hsource))
  leaseUntil hsource := h'.leaseUntil.trans (h.leaseUntil (h'.source ▸ hsource))
  attemptCount hsource := h'.attemptCount.trans (h.attemptCount (h'.source ▸ hsource))

theorem Undisturbed.refl (db : Database Digest) : Undisturbed db db :=
  ⟨Nat.le_refl _, fun a ha => .inl ⟨a, ha, .refl a⟩⟩

theorem Undisturbed.trans {db db' db'' : Database Digest} (h : Undisturbed db db')
    (h' : Undisturbed db' db'') :
    Undisturbed db db'' where
  nextId := h.nextId.trans h'.nextId
  origin := by
    intro a'' ha''
    rcases h'.origin a'' ha'' with ⟨a', ha', hkept⟩ | ⟨hid, hfresh⟩
    · rcases h.origin a' ha' with ⟨a, ha, hkept'⟩ | ⟨hid, hfresh⟩
      · exact .inl ⟨a, ha, hkept'.trans hkept⟩
      · exact .inr ⟨hkept.id ▸ hid, hfresh.undisturbed hkept⟩
    · exact .inr ⟨h.nextId.trans hid, hfresh⟩

section
variable {G : Grant Digest} {db db' : Database Digest}

theorem Statement.undisturbed (h : Statement G db db') (hG : ¬G.ingest) : Undisturbed db db' where
  nextId := h.nextId_le
  origin := by
    intro a' ha'
    rcases h.attachment_origin ha' with ⟨a, ha, hrewritten⟩ | ⟨hid, hlease, hinserted⟩
    · refine .inl ⟨a, ha, ?_⟩
      cases hrewritten with
      | advance _ granted _ _ => exact absurd granted hG
      | _ => exact ⟨rfl, rfl, rfl, rfl, rfl, rfl⟩
    · refine .inr ⟨hid.ge, ?_⟩
      cases hinserted with
      | attach _ _ state unleased attempts _ =>
          exact ⟨hlease, fun _ => state, fun _ => unleased, fun _ => attempts⟩
      | upload _ source _ _ _ =>
          have hno : a'.source ≠ .inbound := by simp [source]
          exact ⟨hlease, fun h => absurd h hno, fun h => absurd h hno, fun h => absurd h hno⟩

theorem Performs.undisturbed (h : Performs G db db') (hG : ¬G.ingest) : Undisturbed db db' := by
  induction h with
  | refl => exact .refl _
  | tail _ hstatement ih => exact ih.trans (hstatement.undisturbed hG)

end

/-! ### The transactions of the ingest runtime -/

/-- The rows that a cycle claims: the first of those that are due and that no transaction holds. -/
def ingestBatch (db : Database Digest) (now : Time) (locked : List Uuid) : List EmailAttachment :=
  (db.attachments.selectSorted (fun a => a.ready now && !locked.contains a.id)
    fun a b => a.nextAttemptAt < b.nextAttemptAt ∨
      (a.nextAttemptAt = b.nextAttemptAt ∧ a.id ≤ b.id)).take ingestBatchSize

/-- The row is the one that was claimed, under the lease of the claim. -/
def ClaimedAttachment.owns (x : ClaimedAttachment) (a : EmailAttachment) : Bool :=
  a.id == x.id && a.leaseToken == some x.leaseToken

/-- A row after its claim. -/
structure EmailAttachment.LeasedTo (token : Uuid) (a a' : EmailAttachment) : Prop where
  id : a'.id = a.id
  source : a'.source = a.source
  state : a'.state = a.state
  attemptCount : a'.attemptCount = a.attemptCount + 1
  leaseToken : a'.leaseToken = some token
  leaseUntil : a'.leaseUntil.isSome

/-- A row after the report of an attempt. -/
structure EmailAttachment.Released (a a' : EmailAttachment) : Prop where
  id : a'.id = a.id
  source : a'.source = a.source
  attemptCount : a'.attemptCount = a.attemptCount
  leaseToken : a'.leaseToken = none
  leaseUntil : a'.leaseUntil = none

/-- The claim of a cycle. -/
structure IngestClaim (now : Time) (locked : List Uuid) (db db' : Database Digest)
    (xs : List ClaimedAttachment) :
    Prop where
  nextId : db'.nextId = db.nextId + 1
  distinct : (xs.map ClaimedAttachment.id).Nodup
  claimed : ∀ x ∈ xs, x.leaseToken = db.nextId ∧
    ∃ a ∈ ingestBatch db now locked, a.id = x.id ∧ x.attemptCount = a.attemptCount + 1
  rows : ∀ a' ∈ db'.attachments, ∃ a ∈ db.attachments,
    (a' = a ∧ ∀ x ∈ xs, x.id ≠ a.id) ∨ (a.LeasedTo db.nextId a' ∧ ∃ x ∈ xs, x.id = a.id)

/-- The report of an attempt, which changes only the row under its lease. -/
structure IngestReport (x : ClaimedAttachment) (P : EmailAttachment → EmailAttachment → Prop)
    (db db' : Database Digest) : Prop where
  nextId : db'.nextId = db.nextId
  rows : ∀ a' ∈ db'.attachments, ∃ a ∈ db.attachments,
    (a' = a ∧ x.owns a = false) ∨ (a.Released a' ∧ P a a' ∧ x.owns a = true)

section
variable {db db' : Database Digest}

theorem mem_ingestBatch {now : Time} {locked : List Uuid} {a : EmailAttachment}
    (h : a ∈ ingestBatch db now locked) :
    a ∈ db.attachments ∧ a.ready now = true := by
  obtain ⟨ha, hp⟩ := Table.mem_selectSorted.mp (List.mem_of_mem_take h)
  rw [Bool.and_eq_true] at hp
  exact ⟨ha, hp.1⟩

theorem nodup_ingestBatch (db : Database Digest) (now : Time) (locked : List Uuid) :
    ((ingestBatch db now locked).map EmailAttachment.id).Nodup := by
  rw [ingestBatch, List.map_take]
  exact (db.attachments.nodup_map_selectSorted _ _).sublist (List.take_sublist _ _)

theorem claimPendingAttachments_claims {now : Time} {locked : List Uuid}
    {xs : List ClaimedAttachment} (h : claimPendingAttachments now locked db = .ok (xs, db')) :
    IngestClaim now locked db db' xs := by
  rw [claimPendingAttachments] at h
  obtain ⟨token, db₁, hdraw, h⟩ := bind_eq_ok.mp h
  obtain ⟨rfl, rfl⟩ := freshId_eq_ok.mp hdraw
  obtain ⟨_, _, hget, h⟩ := bind_eq_ok.mp h
  obtain ⟨rfl, rfl⟩ := get_eq_ok.mp hget
  obtain ⟨_, _, hupdate, h⟩ := bind_eq_ok.mp h
  obtain ⟨rfl, rfl⟩ := pure_eq_ok.mp h
  rw [updateAttachments, modifyGet_eq_ok, Prod.mk.injEq] at hupdate
  obtain ⟨-, rfl⟩ := hupdate
  refine ⟨rfl, ?_, ?_, ?_⟩
  · rw [List.map_map]
    exact nodup_ingestBatch db now locked
  · intro x hx
    obtain ⟨a, ha, rfl⟩ := List.mem_map.mp hx
    exact ⟨rfl, a, ha, rfl, rfl⟩
  · intro a' ha'
    dsimp only at ha'
    rw [Table.mem_update] at ha'
    obtain ⟨a, ha, rfl⟩ := ha'
    refine ⟨a, ha, ?_⟩
    split
    next hp =>
      obtain ⟨b, hb, hba⟩ := List.mem_map.mp (List.contains_iff_mem.mp hp)
      exact .inr ⟨⟨rfl, rfl, rfl, rfl, rfl, rfl⟩, _, List.mem_map.mpr ⟨b, hb, rfl⟩, hba⟩
    next hp =>
      refine .inl ⟨rfl, fun x hx hid => hp ?_⟩
      obtain ⟨b, hb, rfl⟩ := List.mem_map.mp hx
      exact List.contains_iff_mem.mpr (List.mem_map.mpr ⟨b, hb, hid⟩)

/-- The update of the row under a lease. -/
theorem ingestReport_update {x : ClaimedAttachment} {P : EmailAttachment → EmailAttachment → Prop}
    {f : EmailAttachment → EmailAttachment} {keep : ∀ a, (f a).id = a.id}
    (hf : ∀ a : EmailAttachment, a.Released (f a)) (hP : ∀ a, P a (f a)) :
    IngestReport x P db { db with attachments := db.attachments.update x.owns f keep } where
  nextId := rfl
  rows := by
    intro a' ha'
    dsimp only at ha'
    rw [Table.mem_update] at ha'
    obtain ⟨a, ha, rfl⟩ := ha'
    refine ⟨a, ha, ?_⟩
    split
    next hp => exact .inr ⟨hf a, hP a, hp⟩
    next hp => exact .inl ⟨rfl, by simpa using hp⟩

theorem count_owns {x : ClaimedAttachment} {a : EmailAttachment} (ha : a ∈ db.attachments)
    (hp : x.owns a = true) :
    db.attachments.count x.owns = 1 := by
  have hid : a.id = x.id := by
    simp only [ClaimedAttachment.owns, Bool.and_eq_true, beq_iff_eq] at hp
    exact hp.1
  refine @Table.count_eq_length _ _ _ db.attachments x.owns [x.id] (List.nodup_singleton _) ?_ ?_
  · intro b hb
    rw [List.mem_singleton]
    constructor
    · intro hown
      simp only [ClaimedAttachment.owns, Bool.and_eq_true, beq_iff_eq] at hown
      exact hown.1
    · intro hkey
      obtain rfl := Table.key_inj hb ha (hkey.trans hid.symm)
      exact hp
  · intro k hk
    rw [List.mem_singleton] at hk
    exact ⟨a, ha, hid.trans hk.symm⟩

theorem storeIngested_reports {x : ClaimedAttachment} {sizeBytes : ℕ} {updated : Bool}
    (h : storeIngested x sizeBytes db = .ok (updated, db')) :
    IngestReport x (fun _ a' => a'.state = .stored) db db' ∧ (updated = false → db' = db) := by
  rw [storeIngested] at h
  obtain ⟨n, _, hupdate, h⟩ := bind_eq_ok.mp h
  obtain ⟨rfl, rfl⟩ := pure_eq_ok.mp h
  rw [updateAttachments, modifyGet_eq_ok, Prod.mk.injEq] at hupdate
  obtain ⟨rfl, rfl⟩ := hupdate
  refine ⟨ingestReport_update (fun _ => ⟨rfl, rfl, rfl, rfl, rfl⟩) fun _ => rfl, fun hcount => ?_⟩
  have hnone : ∀ a ∈ db.attachments, x.owns a = false := by
    intro a ha
    by_contra hp
    rw [Bool.not_eq_false] at hp
    have hone : db.attachments.count
        (fun a => a.id == x.id && a.leaseToken == some x.leaseToken) = 1 :=
      count_owns ha hp
    simp [hone] at hcount
  have hkept := @Table.update_eq_self _ _ _ db.attachments x.owns (fun a =>
    { a with
      state := .stored
      stateDetail := none
      sizeBytes := sizeBytes
      leaseToken := none
      leaseUntil := none
      lastErrorCode := none }) (fun _ => rfl) fun a ha hp => absurd hp (by simp [hnone a ha])
  exact congrArg (fun t => { db with attachments := t }) hkept

/-- An unsuccessful attempt reschedules its row, or fails it. -/
def ClaimedAttachment.Fails (x : ClaimedAttachment) (a a' : EmailAttachment) : Prop :=
  a'.state = .failed ∨ (x.attemptCount < ingestMaxAttempts ∧ a'.state = a.state)

theorem failAttachment_reports (now : Time) (x : ClaimedAttachment) (error : IngestError) :
    ∃ db', failAttachment now x error db = .ok ((), db') ∧ IngestReport x x.Fails db db' := by
  unfold failAttachment
  split
  next => exact ⟨_, rfl, ingestReport_update (fun _ => ⟨rfl, rfl, rfl, rfl, rfl⟩) fun _ => .inl rfl⟩
  next hnot =>
    have hless : x.attemptCount < ingestMaxAttempts := by
      by_contra hge
      exact hnot (.inr (Nat.le_of_not_lt hge))
    exact ⟨_, rfl, ingestReport_update (fun _ => ⟨rfl, rfl, rfl, rfl, rfl⟩) fun _ =>
      .inr ⟨hless, rfl⟩⟩

end

/-! ### Moves -/

/-- What happens to a claimed attachment: the claim, the fetch from the provider, and the end of
an attempt without success. -/
inductive IngestEvent where
  | claimed (attachment : ClaimedAttachment)
  | fetched (attachment : ClaimedAttachment)
  | missed (attachment : ClaimedAttachment)
deriving DecidableEq

/-- What the next step of a process does to its attachment. -/
def Proc.ingestEvents : Proc Digest → List IngestEvent
  | .ingest { phase := some (.fetching a), .. } => [.fetched a]
  | .ingest { phase := some (.failing a _), .. } => [.missed a]
  | _ => []

/-- What a step does to claimed attachments.  The attempts of a worker that crashes end
without success. -/
def ingestEvents (s s' : System Digest) : Action Digest → List IngestEvent
  | .start pid .ingest _ => (s'.heldBy pid).map .claimed
  | .run pid _ => ((s.procs.get? pid).map fun p => p.2.ingestEvents).getD []
  | .crash pid => (s.heldBy pid).map .missed
  | _ => []

/-- What one step can do to the held attachments and to the rows of the ingest runtime. -/
inductive IngestMove (s : System Digest) (a : Action Digest) (s' : System Digest) :
    List IngestEvent → Prop
  | quiet (rows : Undisturbed s.db s'.db) (held : ∀ q, s'.heldBy q = s.heldBy q)
      (unfetched : ∀ q, s'.unfetchedBy q = s.unfetchedBy q) : IngestMove s a s' []
  | claimed (pid : ℕ) (c : Choice Digest) (xs : List ClaimedAttachment)
      (action : a = .start pid .ingest c)
      (free : s.heldBy pid = []) (claim : IngestClaim (s.clock c.readAt) c.locked s.db s'.db xs)
      (held : ∀ q, s'.heldBy q = if q = pid then xs else s.heldBy q)
      (unfetched : ∀ q, s'.unfetchedBy q = if q = pid then xs else s.unfetchedBy q) :
      IngestMove s a s' (xs.map .claimed)
  | fetched (pid : ℕ) (x : ClaimedAttachment) (rest : List ClaimedAttachment)
      (holds : s.heldBy pid = x :: rest)
      (waits : s.unfetchedBy pid = x :: rest) (db : s'.db = s.db)
        (held : ∀ q, s'.heldBy q = s.heldBy q)
      (unfetched : ∀ q, s'.unfetchedBy q = if q = pid then rest else s.unfetchedBy q) :
      IngestMove s a s' [.fetched x]
  | stored (pid : ℕ) (x : ClaimedAttachment) (rest : List ClaimedAttachment)
      (holds : s.heldBy pid = x :: rest)
      (waits : s.unfetchedBy pid = rest)
        (report : IngestReport x (fun _ a' => a'.state = .stored) s.db s'.db)
      (held : ∀ q, s'.heldBy q = if q = pid then rest else s.heldBy q)
      (unfetched : ∀ q, s'.unfetchedBy q = s.unfetchedBy q) : IngestMove s a s' []
  | missed (pid : ℕ) (x : ClaimedAttachment) (rest : List ClaimedAttachment)
      (holds : s.heldBy pid = x :: rest)
      (waits : s.unfetchedBy pid = rest) (report : IngestReport x x.Fails s.db s'.db)
      (held : ∀ q, s'.heldBy q = if q = pid then rest else s.heldBy q)
      (unfetched : ∀ q, s'.unfetchedBy q = s.unfetchedBy q) : IngestMove s a s' [.missed x]
  | crashed (pid : ℕ) (action : a = .crash pid) (db : s'.db = s.db)
      (held : ∀ q, s'.heldBy q = if q = pid then [] else s.heldBy q)
      (unfetched : ∀ q, s'.unfetchedBy q = if q = pid then [] else s.unfetchedBy q) :
      IngestMove s a s' ((s.heldBy pid).map .missed)

namespace System

theorem heldBy_become (t : System Digest) (pid : ℕ) (p : Proc Digest) (q : ℕ) :
    (t.become pid p).heldBy q = if q = pid then p.held else t.heldBy q := by
  unfold heldBy become
  rw [Table.get?_set]
  by_cases hq : q = pid
  · subst hq
    simp
  · simp [hq, Ne.symm hq]

theorem unfetchedBy_become (t : System Digest) (pid : ℕ) (p : Proc Digest) (q : ℕ) :
    (t.become pid p).unfetchedBy q = if q = pid then p.unfetched else t.unfetchedBy q := by
  unfold unfetchedBy become
  rw [Table.get?_set]
  by_cases hq : q = pid
  · subst hq
    simp
  · simp [hq, Ne.symm hq]

theorem held_finish (t : System Digest) (pid q : ℕ) :
    (t.finish pid).heldBy q = (if q = pid then [] else t.heldBy q) ∧
      (t.finish pid).unfetchedBy q = if q = pid then [] else t.unfetchedBy q := by
  by_cases hq : q = pid
  · subst hq
    have hspare : (t.finish q).Spare q := spare_finish
    simpa using hspare.held
  · have hothers : (t.finish pid).procs.get? q = t.procs.get? q :=
      ((Beside.refl t).finish pid).others q hq
    rw [heldBy, heldBy, unfetchedBy, unfetchedBy, hothers, if_neg hq, if_neg hq]
    exact ⟨rfl, rfl⟩

/-- What the other processes hold depends on the processes only. -/
theorem Beside.held {t : System Digest} (h : Beside s t) (q : ℕ) :
    t.heldBy q = s.heldBy q ∧ t.unfetchedBy q = s.unfetchedBy q := by
  rw [heldBy, heldBy, unfetchedBy, unfetchedBy, h.procs]
  exact ⟨rfl, rfl⟩

end System

/-- The worker goes on and holds the same. -/
theorem IngestMove.keep {a : Action Digest} {t : System Digest} {p p' : Proc Digest}
    (hruns : s.Runs pid p) (ht : Beside s t) (rows : Undisturbed s.db t.db)
    (held : p'.held = p.held) (unfetched : p'.unfetched = p.unfetched) :
    IngestMove s a (t.become pid p') [] := by
  refine .quiet rows (fun q => ?_) fun q => ?_
  · rw [heldBy_become, (ht.held q).1]
    split
    next hq =>
      subst hq
      rw [hruns.heldBy, held]
    next => rfl
  · rw [unfetchedBy_become, (ht.held q).2]
    split
    next hq =>
      subst hq
      rw [hruns.unfetchedBy, unfetched]
    next => rfl

/-- The worker has fetched its attachment. -/
theorem IngestMove.fetch {a : Action Digest} {t : System Digest} {x : ClaimedAttachment}
    {w : IngestWorker} {phase : IngestPhase} (hruns : s.Runs pid (.ingest w))
    (hphase : w.phase = some (.fetching x)) (hdb : t.db = s.db) (ht : t.procs = s.procs)
    (attachment : phase.attachment = x) (unfetched : phase.unfetched = []) :
    IngestMove s a (t.become pid (.ingest { w with phase := some phase })) [.fetched x] := by
  have hothers : ∀ q, t.heldBy q = s.heldBy q ∧ t.unfetchedBy q = s.unfetchedBy q := by
    intro q
    rw [System.heldBy, System.heldBy, System.unfetchedBy, System.unfetchedBy, ht]
    exact ⟨rfl, rfl⟩
  have hheld : (Proc.ingest w : Proc Digest).held = x :: w.queue := by
    simp [Proc.held, hphase, IngestPhase.attachment]
  have hwaits : (Proc.ingest w : Proc Digest).unfetched = x :: w.queue := by
    simp [Proc.unfetched, hphase, IngestPhase.unfetched]
  refine .fetched pid x w.queue (hruns.heldBy.trans hheld) (hruns.unfetchedBy.trans hwaits) hdb
    (fun q => ?_) fun q => ?_
  · rw [heldBy_become, (hothers q).1]
    split
    next hq =>
      subst hq
      rw [hruns.heldBy, hheld]
      simp [Proc.held, attachment]
    next => rfl
  · rw [unfetchedBy_become, (hothers q).2]
    simp [Proc.unfetched, unfetched]

/-- What the processes hold once a worker let go of its attachment. -/
theorem IngestWorker.release {t : System Digest} {x : ClaimedAttachment} {w : IngestWorker}
    {phase : IngestPhase} (hruns : s.Runs pid (.ingest w)) (hphase : w.phase = some phase)
    (attachment : phase.attachment = x) (unfetched : phase.unfetched = []) (ht : Beside s t) :
    s.heldBy pid = x :: w.queue ∧ s.unfetchedBy pid = w.queue ∧
      (∀ q, (t.become pid (.ingest { w with phase := none })).heldBy q = if q =
        pid then w.queue else s.heldBy q) ∧
      ∀ q, (t.become pid (.ingest { w with phase := none })).unfetchedBy q = s.unfetchedBy q := by
  have hheld : s.heldBy pid = x :: w.queue := by
    rw [hruns.heldBy]
    simp [Proc.held, hphase, attachment]
  have hwaits : s.unfetchedBy pid = w.queue := by
    rw [hruns.unfetchedBy]
    simp [Proc.unfetched, hphase, unfetched]
  refine ⟨hheld, hwaits, fun q => ?_, fun q => ?_⟩
  · rw [heldBy_become, (ht.held q).1]
    simp [Proc.held]
  · rw [unfetchedBy_become, (ht.held q).2]
    split
    next hq =>
      subst hq
      rw [hwaits]
      simp [Proc.unfetched]
    next => rfl

theorem IngestWorker.step_moves {a : Action Digest} {w : IngestWorker}
    (hruns : s.Runs pid (.ingest w)) :
    IngestMove s a (w.step s pid c) (Proc.ingest w : Proc Digest).ingestEvents := by
  obtain ⟨queue, phase⟩ := w
  cases phase with
  | none =>
      cases queue with
      | nil =>
          refine .quiet (.refl _) (fun q => ?_) fun q => ?_
          · simp only [IngestWorker.step, (held_finish s pid q).1]
            split
            next hq =>
              subst hq
              simp [hruns.heldBy, Proc.held]
            next => rfl
          · simp only [IngestWorker.step, (held_finish s pid q).2]
            split
            next hq =>
              subst hq
              simp [hruns.unfetchedBy, Proc.unfetched]
            next => rfl
      | cons x queue =>
          exact .keep hruns (.refl s) (.refl _) (by simp [Proc.held, IngestPhase.attachment])
            (by simp [Proc.unfetched, IngestPhase.unfetched])
  | some phase =>
      cases phase with
      | fetching x =>
          simp only [IngestWorker.step, IngestWorker.fetch, Proc.ingestEvents]
          split
          · exact .fetch hruns rfl rfl rfl rfl rfl
          split
          · exact .fetch hruns rfl rfl rfl rfl rfl
          split
          · exact .fetch hruns rfl rfl rfl rfl rfl
          · exact .fetch hruns rfl rfl rfl rfl rfl
      | storing x sizeBytes =>
          simp only [IngestWorker.step, IngestWorker.store, Proc.ingestEvents]
          split
          · exact .keep hruns (.refl s) (.refl _) (by simp [Proc.held, IngestPhase.attachment])
              (by simp [Proc.unfetched, IngestPhase.unfetched])
          rcases s.transact_cases (storeIngested x sizeBytes) with
            ⟨updated, db', hx, heq⟩ | ⟨e, heq⟩
          · obtain ⟨hreport, hunchanged⟩ := storeIngested_reports hx
            have hbeside : Beside s { s with db := db' } := ⟨rfl, rfl, rfl, rfl⟩
            cases updated with
            | true =>
                simp only [heq]
                obtain ⟨hholds, hwaits, hheld, hunfetched⟩ :=
                  IngestWorker.release hruns rfl rfl rfl hbeside
                exact .stored pid x queue hholds hwaits hreport hheld hunfetched
            | false =>
                simp only [heq]
                obtain rfl := hunchanged rfl
                exact .keep hruns hbeside (.refl _) (by simp [Proc.held, IngestPhase.attachment])
                  (by simp [Proc.unfetched, IngestPhase.unfetched])
          · simp only [heq]
            exact .keep hruns (.refl s) (.refl _) (by simp [Proc.held, IngestPhase.attachment])
              (by simp [Proc.unfetched, IngestPhase.unfetched])
      | lost x =>
          simp only [IngestWorker.step, Proc.ingestEvents]
          have hperforms := performs_transact (G := .routine) (s := s)
            (performs_deleteStoredObject s.now x.storageKey)
          have hbeside : Beside s (s.transact (deleteStoredObject s.now x.storageKey)).2 :=
            ⟨rfl, rfl, rfl, rfl⟩
          exact .keep hruns hbeside (hperforms.undisturbed id)
            (by simp [Proc.held, IngestPhase.attachment])
            (by simp [Proc.unfetched, IngestPhase.unfetched])
      | failing x error =>
          simp only [IngestWorker.step, Proc.ingestEvents]
          obtain ⟨db', hx, hreport⟩ := failAttachment_reports s.now x error
          have hbeside : Beside s (s.transact (failAttachment s.now x error)).2 :=
            ⟨rfl, rfl, rfl, rfl⟩
          have hdb : (s.transact (failAttachment s.now x error)).2.db = db' := by
            rw [System.transact, execute, hx]
          obtain ⟨hholds, hwaits, hheld, hunfetched⟩ :=
            IngestWorker.release hruns rfl rfl rfl hbeside
          refine .missed pid x queue hholds hwaits ?_ hheld hunfetched
          rw [System.become_db, hdb]
          exact hreport

theorem IngestWorker.start_moves {a : Action Digest} (ha : a = .start pid .ingest c)
    (hfree : s.procs.get? pid = none) :
    IngestMove s a (IngestWorker.start s pid c)
      ((((IngestWorker.start s pid c)).heldBy pid).map .claimed) := by
  have hheld : s.heldBy pid = [] := by simp [System.heldBy, hfree]
  have hwaits : s.unfetchedBy pid = [] := by simp [System.unfetchedBy, hfree]
  unfold IngestWorker.start
  rcases s.transact_cases (claimPendingAttachments (s.clock c.readAt) c.locked) with
    ⟨xs, db', hx, heq⟩ | ⟨e, heq⟩
  · simp only [heq]
    have hbeside : Beside s { s with db := db' } := ⟨rfl, rfl, rfl, rfl⟩
    have hown : (({ s with db := db' } : System Digest).become pid (.ingest { queue := xs })).heldBy
        pid = xs := by
      rw [heldBy_become, if_pos rfl]
      simp [Proc.held]
    rw [hown]
    refine .claimed pid c xs ha hheld (claimPendingAttachments_claims hx) (fun q => ?_) fun q => ?_
    · rw [heldBy_become, (hbeside.held q).1]
      simp [Proc.held]
    · rw [unfetchedBy_become, (hbeside.held q).2]
      simp [Proc.unfetched]
  · simp only [heq, hheld]
    exact .quiet (.refl _) (fun _ => rfl) fun _ => rfl

/-- What a step of the system does to the held attachments and their rows. -/
theorem ingest_moves [DecidableEq Digest] {a : Action Digest} (hs : step rt s a = some s') :
    IngestMove s a s' (ingestEvents s s' a) := by
  by_cases hstart : ∃ pid c, a = .start pid .ingest c
  · obtain ⟨pid, c, rfl⟩ := hstart
    simp only [step] at hs
    split at hs
    next hfree =>
      simp only [startJob] at hs
      split at hs
      · cases hs
        exact IngestWorker.start_moves rfl hfree
      · cases hs
    next => cases hs
  by_cases hrun : ∃ pid c w, a = .run pid c ∧ s.Runs pid (.ingest w)
  · obtain ⟨pid, c, w, rfl, hruns⟩ := hrun
    simp only [step, show s.procs.get? pid = some (pid, .ingest w) from hruns,
      Option.bind_some] at hs
    cases hs
    simp only [ingestEvents, show s.procs.get? pid = some (pid, .ingest w) from hruns,
      Option.map_some, Option.getD_some]
    exact IngestWorker.step_moves hruns
  by_cases hcrash : ∃ pid, a = .crash pid
  · obtain ⟨pid, rfl⟩ := hcrash
    cases hs
    exact .crashed pid rfl rfl (fun q => (held_finish s pid q).1) fun q => (held_finish s pid q).2
  · -- no other step is one of the ingest runtime
    have hquiet : ingestEvents s s' a = [] := by
      cases a with
      | start pid job c =>
          cases job with
          | ingest => exact absurd ⟨pid, c, rfl⟩ hstart
          | _ => rfl
      | run pid c =>
          obtain ⟨p, hp, -⟩ := Option.bind_eq_some_iff.mp hs
          have hruns : s.Runs pid p.2 :=
            hp.trans (congrArg some (Prod.ext (Table.key_of_get? hp) rfl))
          simp only [ingestEvents, hp, Option.map_some, Option.getD_some]
          cases hproc : p.2 with
          | ingest w => exact absurd ⟨pid, c, w, rfl, hproc ▸ hruns⟩ hrun
          | _ => rfl
      | crash pid => exact absurd ⟨pid, rfl⟩ hcrash
      | _ => rfl
    have hheld := held_of_step hs (fun pid c h => hstart ⟨pid, c, h⟩)
      (fun pid c w h hruns => hrun ⟨pid, c, w, h, hruns⟩) fun pid h => hcrash ⟨pid, h⟩
    have hgrant : ¬(s.grant rt a).ingest := by
      intro hingest
      rcases System.ingest_granted hingest with h | h
      · exact hstart h
      · exact hrun h
    rw [hquiet]
    exact .quiet ((step_performs hs).undisturbed hgrant) (fun q => (hheld q).1) fun q => (hheld q).2

end ResendConversation
