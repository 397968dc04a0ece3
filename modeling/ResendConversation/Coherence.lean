import ResendConversation.Claims

/-! # Coherence

The invariant of the whole system.  `Origins` says where the stored messages come from,
`Queue` ties the outbox tables to the pending queued messages, and `Proc.Fits` ties a process
at work to the rows it works on.  `Effect.coherent` proves that every step keeps the
invariant and moves to a later database. -/

namespace ResendConversation

open Foundation Tx

variable {Digest : Type} {rt : Runtime Digest}

/-! ### Processes and rows -/

/-- What a process at work knows of the rows it works on. -/
structure Proc.Fits (rt : Runtime Digest) (db : Database Digest) (p : Proc Digest) : Prop where
  delivers : ∀ request id, p.delivers = some (request, id) → id < db.nextId ∧
    request.queued = false ∧ ∀ v, db.view? id = some v →
      v.requestHash = some (rt.hashSendRequest request)
  reopens : ∀ c, p.reopens = some c → c.id < db.nextId ∧
    ((db.conversations.get? c.id).isSome → db.Assigned c.id)
  batch : ∀ batch phase, p.batch = some (batch, phase) → BatchHeld db batch
  entry : ∀ entry phase, p.entry = some (entry, phase) → entry.message.id < db.nextId ∧
    ∀ decision, phase = .ending decision → decision.Proper

/-- A process that is not at work on a send. -/
theorem Proc.Fits.of_idle {db : Database Digest} {p : Proc Digest} (h : p.sends = false) :
    p.Fits rt db := by
  simp only [Proc.sends, Bool.or_eq_false_iff, Option.isSome_eq_false_iff,
    Option.isNone_iff_eq_none] at h
  obtain ⟨⟨⟨hd, hr⟩, hb⟩, he⟩ := h
  exact ⟨by simp [hd], by simp [hr], by simp [hb], by simp [he]⟩

theorem Proc.Fits.mono {db db' : Database Digest} {p : Proc Digest} (h : p.Fits rt db)
    (hl : Later db db') (hb : ∀ batch, BatchHeld db batch → BatchHeld db' batch) :
    p.Fits rt db' where
  delivers := by
    intro request id hp
    obtain ⟨hlt, hq, hhash⟩ := h.delivers request id hp
    refine ⟨hlt.trans_le hl.nextId_le, hq, fun v' hv' => ?_⟩
    obtain ⟨v, hv, hev⟩ := hl.view id v' hlt hv'
    exact hev.requestHash.trans (hhash v hv)
  reopens := by
    intro c hp
    obtain ⟨hlt, ha⟩ := h.reopens c hp
    refine ⟨hlt.trans_le hl.nextId_le, fun hc => ?_⟩
    obtain ⟨hold, hassigned⟩ := hl.conversations c.id hlt hc
    exact hassigned (ha hold)
  batch := fun batch phase hp => hb batch (h.batch batch phase hp)
  entry := fun entry phase hp => by
    obtain ⟨hlt, hproper⟩ := h.entry entry phase hp
    exact ⟨hlt.trans_le hl.nextId_le, hproper⟩

theorem Proc.Fits.of_delivers {db : Database Digest} {p : Proc Digest} {request : SendRequest}
    {id : Uuid} (hp : p.delivers = some (request, id)) (hlt : id < db.nextId)
    (hq : request.queued = false)
    (hhash : ∀ v, db.view? id = some v → v.requestHash = some (rt.hashSendRequest request)) :
    p.Fits rt db := by
  cases p with
  | send h =>
      refine ⟨fun request' id' hp' => ?_, fun c hc => ?_, by simp [Proc.batch], by
        simp [Proc.entry]⟩
      · rw [hp] at hp'
        cases hp'
        exact ⟨hlt, hq, hhash⟩
      · simp only [Proc.reopens] at hc
        split at hc
        next hphase => simp [Proc.delivers, hphase] at hp
        next => cases hc
  | batchDrain => simp [Proc.delivers] at hp
  | entryDrain => simp [Proc.delivers] at hp
  | receive => simp [Proc.delivers] at hp
  | ingest => simp [Proc.delivers] at hp
  | reaper => simp [Proc.delivers] at hp
  | upload => simp [Proc.delivers] at hp

theorem fits_batch {db : Database Digest} {batch : ClaimedBatch Digest}
    {phase : BatchPhase Digest} :
    (Proc.batchDrain (.working batch phase)).Fits rt db ↔ BatchHeld db batch := by
  constructor
  · exact fun h => h.batch batch phase rfl
  · intro h
    refine ⟨by simp [Proc.delivers], by simp [Proc.reopens], fun batch' phase' hp => ?_, by
      simp [Proc.entry]⟩
    cases hp
    exact h

theorem fits_entry {db : Database Digest} {entry : ClaimedEntry Digest} {phase : EntryPhase Digest}
    {remaining : ℕ} {result : AttachmentOutboxDrainResult} :
    (Proc.entryDrain (.working remaining result entry phase)).Fits rt db ↔
      entry.message.id < db.nextId ∧ ∀ decision, phase = .ending decision → decision.Proper := by
  constructor
  · exact fun h => h.entry entry phase rfl
  · intro h
    refine ⟨by simp [Proc.delivers], by simp [Proc.reopens], by simp [Proc.batch],
      fun entry' phase' hp => ?_⟩
    cases hp
    exact h

/-! ### The invariant -/

theorem Frame.origins {φ : Uuid → SendView Digest → SendView Digest} {db db' : Database Digest}
    (h : Frame φ db db') (hφ : ∀ id v, db.view? id = some v → v.Evolves (φ id v))
    (ho : Origins rt db) : Origins rt db' :=
  ho.of_progress (.of_frame h hφ) h.conversations.created

structure Coherent (rt : Runtime Digest) (s : System Digest) : Prop where
  origins : Origins rt s.db
  queue : Queue rt s.db
  fits : ∀ pid p, s.Runs pid p → p.Fits rt s.db

theorem coherent_initial (config : Config) (now : Time) :
    Coherent rt (System.initial config now : System Digest) := by
  refine ⟨⟨?_, ?_, ?_, ?_⟩, ⟨?_, ?_, ?_, ?_, ?_, ?_, ?_, ?_⟩, ?_⟩
  all_goals simp [System.initial, System.Runs, Database.initial, Database.view?, Database.Queued,
    Table.mem_def, Table.empty, Table.get?]

/-- A step keeps the invariant when it keeps its parts and its process fits. -/
theorem Coherent.of_step {s s' : System Digest} (h : Coherent rt s) (ho : Origins rt s'.db)
    (hq : Queue rt s'.db) (hl : Later s.db s'.db)
    (hb : ∀ batch, BatchHeld s.db batch → BatchHeld s'.db batch)
    (hruns : ∀ pid p, s'.Runs pid p → s.Runs pid p ∨ p.Fits rt s'.db) : Coherent rt s' where
  origins := ho
  queue := hq
  fits := by
    intro pid p hp
    rcases hruns pid p hp with hold | hfits
    · exact (h.fits pid p hold).mono hl hb
    · exact hfits

/-- A step that the queue and the claims do not see. -/
theorem Coherent.of_background {s s' : System Digest} (h : Coherent rt s)
    (hb : Background s.db s'.db)
    (hruns : ∀ pid p, s'.Runs pid p → s.Runs pid p ∨ p.Fits rt s'.db) : Coherent rt s' :=
  have hl := Later.of_frame hb.toFrame fun _ v _ => .refl v
  h.of_step (hb.toFrame.origins (fun _ v _ => .refl v) h.origins) (h.queue.of_background hb) hl
    (fun _ hheld => hheld.of_same_tables hl hb.batches hb.entries) hruns

/-- The step of one process. -/
theorem System.runs_of_become {s s' : System Digest} {pid : ℕ} {p : Proc Digest}
    {P : Proc Digest → Prop} (hs : s'.procs = s.procs) (hp : P p) :
    ∀ q p', (s'.become pid p).Runs q p' → s.Runs q p' ∨ P p' := by
  intro q p' hq
  rcases runs_become.mp hq with ⟨-, rfl⟩ | ⟨-, hold⟩
  · exact .inr hp
  · left
    rwa [Runs, hs] at hold

/-- What is known of the processes at work is known after a step of one that keeps it. -/
theorem System.kept_of_become {β : Type} {attr : Proc Digest → Option β} {s s' : System Digest}
    {pid : ℕ} {p : Proc Digest} (hs : s'.procs = s.procs)
    (hkeep : attr p = none ∨ ∃ p₀, s.Runs pid p₀ ∧ attr p₀ = attr p) :
    ∀ q p' x, (s'.become pid p).Runs q p' → attr p' = some x → ∃ p₁, s.Runs q p₁ ∧
      attr p₁ = some x := by
  intro q p' x hq hx
  rcases runs_become.mp hq with ⟨rfl, rfl⟩ | ⟨-, hold⟩
  · rcases hkeep with hnone | ⟨p₀, hp₀, hkeep⟩
    · rw [hnone] at hx
      cases hx
    · exact ⟨p₀, hp₀, hkeep.trans hx⟩
  · rw [Runs, hs] at hold
    exact ⟨p', hold, hx⟩

/-- So it is when processes only retire. -/
theorem System.kept_of_retires {β : Type} {attr : Proc Digest → Option β} {s s' : System Digest}
    (hidle : ∀ p : Proc Digest, p.sends = false → attr p = none)
    (hretires : ∀ pid p, s'.Runs pid p → p.sends = true → s.Runs pid p) :
    ∀ q p' x, s'.Runs q p' → attr p' = some x → ∃ p₁, s.Runs q p₁ ∧ attr p₁ = some x := by
  intro q p' x hq hx
  cases hsends : p'.sends with
  | true => exact ⟨p', hretires q p' hq hsends, hx⟩
  | false =>
      rw [hidle p' hsends] at hx
      cases hx

/-- A process takes a step of its own. -/
theorem Coherent.of_phase {s : System Digest} (h : Coherent rt s) {pid : ℕ} {p : Proc Digest}
    (hp : p.Fits rt s.db) : Coherent rt (s.become pid p) :=
  h.of_background (Std.Refl.refl (r := Background) _) (System.runs_of_become rfl hp)

/-- A process calls the provider. -/
theorem Coherent.of_call {s : System Digest} (h : Coherent rt s) {pid : ℕ} {p : Proc Digest}
    {call : ProviderCall} (hp : p.Fits rt s.db) : Coherent rt ((s.call call).become pid p) := by
  have hb := background_nextId s.db (Nat.le_succ s.db.nextId)
  refine h.of_background hb (System.runs_of_become rfl (hp.mono ?_ fun _ hheld => ?_))
  · exact .of_frame hb.toFrame fun _ v _ => .refl v
  · exact hheld.of_same_tables (.of_frame hb.toFrame fun _ v _ => .refl v) rfl rfl

/-- A synchronous delivery rewrites its message. -/
theorem Coherent.of_rewrite {s s' : System Digest} (hinj : Function.Injective rt.hashSendRequest)
    (h : Coherent rt s) {p : Proc Digest} (hfits : p.Fits rt s.db) {request : SendRequest}
    {id : Uuid} (hp : p.delivers = some (request, id)) {f : SendView Digest → SendView Digest}
    (hr : Rewrite (onMessage id f) s.db s'.db)
    (hf : ∀ v : SendView Digest, v.state ≠ .received → v.Evolves (f v))
    (hruns : ∀ pid p, s'.Runs pid p → s.Runs pid p ∨ p.Fits rt s'.db) :
    Coherent rt s' ∧ Later s.db s'.db := by
  obtain ⟨-, hq, hmine⟩ := hfits.delivers request id hp
  have hev : ∀ v, s.db.view? id = some v → v.Evolves (f v) := fun v hv =>
    hf v (h.origins.outbound hv (hmine v hv)).state
  have hφ : ∀ k v, s.db.view? k = some v → v.Evolves (onMessage id f k v) := by
    intro k v hv
    unfold onMessage
    split
    next hk => exact hev v (hk ▸ hv)
    next => exact .refl v
  have hl := Later.of_frame hr.toFrame hφ
  refine ⟨h.of_step (hr.toFrame.origins hφ h.origins)
    (h.queue.of_rewrite hr ?_ fun v hv => (hev v hv).requestHash) hl
    (fun _ hheld => hheld.of_same_tables hl hr.batches hr.entries) hruns, hl⟩
  intro v hv request' hreq
  rw [hmine v hv] at hreq
  rwa [← hinj (Option.some.inj hreq)]

theorem SendView.evolves_thrown (error : SendError) (v : SendView Digest)
    (hv : v.state ≠ .received) :
    v.Evolves (v.thrown error) := by
  unfold thrown
  split_ifs
  · exact .of_state hv (by simp) (by simp)
  · exact .of_state hv (by simp) (by simp)

theorem SendView.evolves_sent (id : JsString) (v : SendView Digest) (hv : v.state ≠ .received) :
    v.Evolves (v.sent id) :=
  .of_state hv (by simp) (by simp)

theorem SendView.evolves_expired (v : SendView Digest) (hv : v.state ≠ .received) :
    v.Evolves v.expired := by
  unfold expired
  split
  · exact .of_state hv (by simp) (by simp)
  · exact .refl v

theorem SendView.evolves_settled (result : Except SendError JsString) (v : SendView Digest)
    (hv : v.state ≠ .received) : v.Evolves (SendView.settled result v) := by
  cases result with
  | ok id => exact v.evolves_sent id hv
  | error error => exact v.evolves_thrown error hv

theorem BatchDecision.evolves_apply {batch : ClaimedBatch Digest} {decision : BatchDecision}
    (h : ∀ errorCode, decision ≠ .retry errorCode) (id : Uuid) (v : SendView Digest) :
    v.Evolves (decision.apply batch id v) := by
  unfold apply
  split
  next hp =>
    have hv : v.state = .pending := by simpa using And.right (by simpa using hp)
    obtain ⟨hnp, hnr⟩ := @endView_state _ batch _ h id v
    cases decision with
    | accept ids => exact .of_state (by simp [hv]) hnr hnp
    | fail errorCode => exact .of_state (by simp [hv]) hnr hnp
    | indeterminate detail => exact .of_state (by simp [hv]) hnr hnp
    | retry errorCode => exact .refl v
  next => exact .refl v

theorem EntryDecision.evolves_apply {entry : ClaimedEntry Digest} {decision : EntryDecision}
    (h : ∀ errorCode, decision ≠ .retry errorCode) (hp : decision.Proper) (id : Uuid)
    (v : SendView Digest) : v.Evolves (decision.apply entry id v) := by
  unfold apply
  split
  next hcase =>
    have hv : v.state = .pending := by simpa using And.right (by simpa using hcase)
    obtain ⟨hnp, hnr⟩ := endView_state h hp v
    cases decision with
    | accept id => exact .of_state (by simp [hv]) hnr hnp
    | finalize state detail => exact .of_state (by simp [hv]) hnr hnp
    | retry errorCode => exact .refl v
  next => exact .refl v

/-! ### The steps -/

/-- Every step keeps the invariant, and moves to a later database. -/
theorem Effect.coherent {s s' : System Digest} {a : Action Digest}
    (hinj : Function.Injective rt.hashSendRequest) (h : Coherent rt s) (he : Effect rt s a s') :
    Coherent rt s' ∧ Later s.db s'.db := by
  have hrefl : Background s.db s.db := Std.Refl.refl (r := Background) _
  have hlater : Later s.db s.db := Std.Refl.refl (r := Later) _
  cases he with
  | quiet passive provider leases objects now retires =>
      refine ⟨h.of_background passive.toBackground fun pid p hp => ?_,
        .of_frame passive.toFrame fun _ v _ => .refl v⟩
      cases hsends : p.sends with
      | true => exact .inl (retires pid p hp (.inl hsends))
      | false => exact .inr (.of_idle hsends)
  | filed background provider leases now retires =>
      refine ⟨h.of_background background fun pid p hp => ?_,
        .of_frame background.toFrame fun _ v _ => .refl v⟩
      cases hsends : p.sends with
      | true => exact .inl (retires pid p hp hsends)
      | false => exact .inr (.of_idle hsends)
  | reached callId accepted answer provider action reach eq =>
      subst eq
      exact ⟨h.of_background hrefl fun pid p hp => .inl hp, hlater⟩
  | deleted c db' action deletion eq =>
      subst eq
      exact ⟨h.of_step (h.origins.of_deleted deletion) (h.queue.of_deleted deletion)
        (.of_deleted deletion) (fun _ hheld => hheld.of_deleted deletion) fun pid p hp => .inl hp,
        .of_deleted deletion⟩
  | stored pid c handler reopened db' id p action runs reopens stores next eq =>
      subst eq
      obtain ⟨⟨v, hs⟩, -⟩ := stores
      refine ⟨h.of_step (h.origins.of_stored hs rfl) (h.queue.of_stored hinj h.origins hs rfl)
        (.of_stored hs) (fun _ hheld => hheld.of_stored hs) (System.runs_of_become rfl ?_),
        .of_stored hs⟩
      split at next
      next hq => exact .of_idle next.1
      next hq =>
        subst next
        refine .of_delivers (rfl : _ = some (handler.request, id)) hs.lt_nextId
          (by simpa using hq) ?_
        intro w hw
        obtain rfl : v = w := Option.some.inj (hs.stored.symm.trans hw)
        exact hs.intended.requestHash
  | engaged pid c handler m action runs found hash sync eq =>
      subst eq
      have hm := Database.view?_of_get? (Table.mem_iff_get?.mp found)
      refine ⟨h.of_phase (.of_delivers (rfl : _ = some (handler.request, m.id))
        (h.origins.origin m.id _ hm).1 sync fun v hv => ?_), hlater⟩
      obtain rfl : m.sendView = v := Option.some.inj (hm.symm.trans hv)
      exact hash
  | reopening pid c handler conversation action runs found topic eq =>
      subst eq
      have hget := Table.mem_iff_get?.mp found
      refine ⟨h.of_phase ⟨by simp [Proc.delivers, SendHandler.goto], fun d hd => ?_,
        by simp [Proc.batch, SendHandler.goto], by simp [Proc.entry, SendHandler.goto]⟩, hlater⟩
      cases hd
      exact ⟨h.origins.conversations _ (by rw [hget]; rfl), fun _ => ⟨conversation, hget, topic⟩⟩
  | expiring pid c handler id action runs phase eq =>
      subst eq
      obtain ⟨hlt, hq, hhash⟩ := (h.fits pid _ runs).delivers handler.request id
        (by simp [Proc.delivers, phase])
      exact ⟨h.of_phase (.of_delivers rfl hlt hq hhash), hlater⟩
  | resumed pid c handler m action runs phase found window eq =>
      subst eq
      obtain ⟨hlt, hq, hhash⟩ := (h.fits pid _ runs).delivers handler.request m.id
        (by simp [Proc.delivers, phase])
      exact ⟨h.of_phase (.of_delivers rfl hlt hq hhash), hlater⟩
  | prepared pid c handler d attachments action runs phase eq =>
      subst eq
      obtain ⟨hlt, hq, hhash⟩ := (h.fits pid _ runs).delivers handler.request d.messageId
        (by simp [Proc.delivers, phase])
      exact ⟨h.of_phase (.of_delivers rfl hlt hq hhash), hlater⟩
  | expired pid c handler id db' p action runs phase rewrite next eq =>
      subst eq
      exact h.of_rewrite hinj (h.fits pid _ runs)
        (show _ = some (handler.request, id) by simp [Proc.delivers, phase]) rewrite
          SendView.evolves_expired
        (System.runs_of_become rfl (.of_idle next.1))
  | called pid c handler d attachments m action runs phase free found pending eq =>
      subst eq
      obtain ⟨hlt, hq, hhash⟩ := (h.fits pid _ runs).delivers handler.request d.messageId
        (by simp [Proc.delivers, phase])
      exact ⟨h.of_call (.of_delivers rfl hlt hq hhash),
        .of_frame (background_nextId s.db (Nat.le_succ s.db.nextId)).toFrame fun _ v _ => .refl v⟩
  | refused pid c handler d attachments m error db' p action runs phase free found pending cause
      rewrite next eq =>
      subst eq
      exact h.of_rewrite hinj (h.fits pid _ runs)
        (show _ = some (handler.request, d.messageId) by simp [Proc.delivers, phase]) rewrite
        (SendView.evolves_thrown error)
        (System.runs_of_become rfl (.of_idle next.1))
  | settled pid c handler d m callId observation db' p action runs phase waits observed
      rewrite next eq =>
      subst eq
      have hidle : ∀ q p',
        (System.become { s.observe callId observation with db := db' } pid p).Runs q p' →
          s.Runs q p' ∨ p'.Fits rt db' := System.runs_of_become rfl (.of_idle next.1)
      rcases rewrite with rfl | rewrite
      · exact ⟨h.of_background hrefl hidle, hlater⟩
      · exact h.of_rewrite hinj (h.fits pid _ runs)
          (show _ = some (handler.request, d.messageId) by simp [Proc.delivers, phase]) rewrite
          (SendView.evolves_settled _) hidle
  | batchSwept pid p next eq =>
      subst eq
      have hb : Background s.db (swept s.db) := by
        rw [h.queue.swept_eq]
        exact background_nextId s.db (Nat.le_succ _)
      exact ⟨h.of_background hb (System.runs_of_become rfl (.of_idle next.1)),
        .of_frame hb.toFrame fun _ v _ => .refl v⟩
  | batchClaimed pid c loaded db' p claim free next eq =>
      subst eq
      have hq := h.queue.of_batchClaim claim
      have ho := claim.frame.origins (fun _ v _ => .refl v) h.origins
      have hl := Later.of_frame claim.frame fun _ v _ => .refl v
      refine ⟨h.of_step ho hq hl (fun _ hheld => hheld.of_batchClaim h.queue claim)
        (System.runs_of_become rfl ?_), hl⟩
      obtain ⟨batch, hcheck, hid, -, -, -, hm⟩ := hq.checkClaim_eq_ok s.db.nextId claim.loaded_eq
      rw [hcheck] at next
      subst next
      exact fits_batch.mpr (hq.batchHeld ho claim.loaded_eq hid hm)
  | batchSkipped pid c batch claimedAt decision action runs decided eq =>
      subst eq
      exact ⟨h.of_phase (fits_batch.mpr (fits_batch.mp (h.fits pid _ runs))), hlater⟩
  | batchCalled pid c batch claimedAt action runs window eq =>
      subst eq
      exact ⟨h.of_call (fits_batch.mpr (fits_batch.mp (h.fits pid _ runs))),
        .of_frame (background_nextId s.db (Nat.le_succ s.db.nextId)).toFrame fun _ v _ => .refl v⟩
  | batchObserved pid c batch callId observation action runs observed eq =>
      subst eq
      exact ⟨h.of_background hrefl (System.runs_of_become rfl
        (fits_batch.mpr (fits_batch.mp (h.fits pid _ runs)))), hlater⟩
  | batchFinalized pid c batch decision db' p action runs finalized next eq =>
      subst eq
      have hφ : ∀ id v, s.db.view? id = some v → v.Evolves (decision.apply batch id v) :=
        fun id v _ =>
        BatchDecision.evolves_apply finalized.terminal id v
      have hl := Later.of_frame finalized.toFrame hφ
      have hheld := fits_batch.mp (h.fits pid _ runs)
      exact ⟨h.of_step (finalized.toFrame.origins hφ h.origins)
        (h.queue.of_batchFinalized hinj hheld finalized) hl
        (fun _ hheld => hheld.of_batchFinalized hl finalized)
        (System.runs_of_become rfl (.of_idle next.1)), hl⟩
  | batchRescheduled pid c batch decision db' p action runs rescheduled next eq =>
      subst eq
      have hf := rescheduled.frame
      have hl := Later.of_frame hf fun _ v _ => .refl v
      exact ⟨h.of_step (hf.origins (fun _ v _ => .refl v) h.origins)
        (h.queue.of_batchRescheduled rescheduled) hl
        (fun _ hheld => hheld.of_batchRescheduled rescheduled)
        (System.runs_of_become rfl (.of_idle next.1)), hl⟩
  | entrySwept pid p next eq =>
      subst eq
      have hb : Background s.db (sweptAttachments s.db) := by
        rw [h.queue.sweptAttachments_eq]
        exact background_nextId s.db (Nat.le_succ _)
      exact ⟨h.of_background hb (System.runs_of_become rfl (.of_idle next.1)),
        .of_frame hb.toFrame fun _ v _ => .refl v⟩
  | entryClaimed pid c remaining result entry e db' action runs claim eq =>
      subst eq
      have hl := Later.of_frame claim.frame fun _ v _ => .refl v
      have hid : entry.message.id < db'.nextId := by
        obtain ⟨hlt, -⟩ := h.origins.origin _ _ (Database.view?_of_get? claim.message)
        rw [Table.key_of_get? claim.message]
        exact hlt.trans_le hl.nextId_le
      exact ⟨h.of_step (claim.frame.origins (fun _ v _ => .refl v) h.origins)
        (h.queue.of_entryClaim claim) hl
        (fun _ hheld => hheld.of_same_tables hl claim.batches claim.entries)
        (System.runs_of_become rfl (fits_entry.mpr ⟨hid, by simp⟩)), hl⟩
  | entrySkipped pid c remaining result entry claimedAt decision action runs decided eq =>
      subst eq
      obtain ⟨hlt, -⟩ := fits_entry.mp (h.fits pid _ runs)
      refine ⟨h.of_phase (fits_entry.mpr ⟨hlt, fun decision' hd => ?_⟩), hlater⟩
      cases hd
      rcases decided with rfl | ⟨name, message, rfl⟩
      · exact .inr rfl
      · exact decideEntryError_proper _ _ _
  | entryCalled pid c remaining result entry claimedAt attachments action runs window eq =>
      subst eq
      obtain ⟨hlt, -⟩ := fits_entry.mp (h.fits pid _ runs)
      exact ⟨h.of_call (fits_entry.mpr ⟨hlt, by simp⟩),
        .of_frame (background_nextId s.db (Nat.le_succ s.db.nextId)).toFrame fun _ v _ => .refl v⟩
  | entryObserved pid c remaining result entry callId observation action runs observed eq =>
      subst eq
      obtain ⟨hlt, -⟩ := fits_entry.mp (h.fits pid _ runs)
      refine ⟨h.of_background hrefl
        (System.runs_of_become rfl (fits_entry.mpr ⟨hlt, fun decision hd => ?_⟩)), hlater⟩
      cases hd
      exact decideEntry_proper _ _ _
  | entryFinalized pid c remaining result entry decision db' p action runs finalized next eq =>
      subst eq
      have hproper := (fits_entry.mp (h.fits pid _ runs)).2 decision rfl
      have hφ : ∀ id v, s.db.view? id = some v → v.Evolves (decision.apply entry id v) :=
        fun id v _ =>
        EntryDecision.evolves_apply finalized.terminal hproper id v
      have hl := Later.of_frame finalized.toFrame hφ
      exact ⟨h.of_step (finalized.toFrame.origins hφ h.origins)
        (h.queue.of_entryFinalized hinj hproper finalized) hl
        (fun _ hheld => hheld.of_same_tables hl finalized.batches finalized.entries)
        (System.runs_of_become rfl (.of_idle next.1)), hl⟩
  | entryRescheduled pid c remaining result entry decision db' p action runs rescheduled next eq =>
      subst eq
      have hf := rescheduled.frame
      have hl := Later.of_frame hf fun _ v _ => .refl v
      exact ⟨h.of_step (hf.origins (fun _ v _ => .refl v) h.origins)
        (h.queue.of_entryRescheduled rescheduled) hl
        (fun _ hheld => hheld.of_same_tables hl rescheduled.batches rescheduled.entries)
        (System.runs_of_become rfl (.of_idle next.1)), hl⟩
  | entryRedecided pid c remaining result entry decision name message action runs eq =>
      subst eq
      obtain ⟨hlt, -⟩ := fits_entry.mp (h.fits pid _ runs)
      refine ⟨h.of_phase (fits_entry.mpr ⟨hlt, fun decision' hd => ?_⟩), hlater⟩
      cases hd
      exact decideEntryError_proper _ _ _

/-! ### Reachable states -/

variable [DecidableEq Digest]

theorem Coherent.next {s s' : System Digest} {a : Action Digest}
    (hinj : Function.Injective rt.hashSendRequest) (h : Coherent rt s)
    (hs : step rt s a = some s') : Coherent rt s' ∧ Later s.db s'.db :=
  (step_effect hs).coherent hinj h

theorem Reachable.coherent {s : System Digest} (hinj : Function.Injective rt.hashSendRequest)
    (h : Reachable rt s) : Coherent rt s := by
  obtain ⟨config, now, hrun⟩ := h
  exact hrun.invariant (coherent_initial config now) fun _ _ _ hI _ hs => (hI.next hinj hs).1

end ResendConversation
