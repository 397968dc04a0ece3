import ResendConversation.IngestAttempts
import ResendConversation.StoredObjects

/-! # The steps of the file processes

Every step of an ingest worker, the reaper or an upload request keeps `FilesKept`, one lemma
for each function of their modules, and so does every other step.  A worker that lost its
lease condemns the object of its claim; this is the only step that may take the object of a
stored row away, and `System.condemnsRow` says when it does. -/

namespace ResendConversation

open Foundation Tx ResendConversation.System

variable {Digest : Type} {rt : Runtime Digest} {s s' : System Digest} {pid : ℕ} {c : Choice Digest}

/-! ### The transactions -/

section
variable {db db' : Database Digest}

/-- Claimed attachments name rows of received attachments. -/
theorem claimPendingAttachments_rows {now : Time} {locked : List Uuid} {xs : List ClaimedAttachment}
    (h : claimPendingAttachments now locked db = .ok (xs, db')) : db'.tombstones = db.tombstones ∧
      ∀ x ∈ xs, ∃ a ∈ db.attachments, a.id = x.id ∧ a.storageKey = x.storageKey ∧
        a.source = .inbound := by
  rw [claimPendingAttachments] at h
  obtain ⟨token, db₁, hdraw, h⟩ := bind_eq_ok.mp h
  obtain ⟨rfl, rfl⟩ := freshId_eq_ok.mp hdraw
  obtain ⟨_, _, hget, h⟩ := bind_eq_ok.mp h
  obtain ⟨rfl, rfl⟩ := get_eq_ok.mp hget
  obtain ⟨_, _, hupdate, h⟩ := bind_eq_ok.mp h
  obtain ⟨rfl, rfl⟩ := pure_eq_ok.mp h
  rw [updateAttachments, modifyGet_eq_ok, Prod.mk.injEq] at hupdate
  obtain ⟨-, rfl⟩ := hupdate
  refine ⟨rfl, fun x hx => ?_⟩
  obtain ⟨a, ha, rfl⟩ := List.mem_map.mp hx
  obtain ⟨hmem, hready⟩ := mem_ingestBatch ha
  simp only [EmailAttachment.ready, Bool.and_eq_true, beq_iff_eq] at hready
  exact ⟨a, hmem, rfl, rfl, hready.1.1.1.1.2⟩

theorem storeIngested_tombstones {x : ClaimedAttachment} {sizeBytes : ℕ} {updated : Bool}
    (h : storeIngested x sizeBytes db = .ok (updated, db')) : db'.tombstones = db.tombstones := by
  obtain ⟨n, _, hupdate, h⟩ := bind_eq_ok.mp h
  obtain ⟨-, rfl⟩ := pure_eq_ok.mp h
  rw [updateAttachments, modifyGet_eq_ok, Prod.mk.injEq] at hupdate
  obtain ⟨-, rfl⟩ := hupdate
  rfl

theorem failAttachment_tombstones {now : Time} {x : ClaimedAttachment} {error : IngestError}
    {u : Unit} (h : failAttachment now x error db = .ok (u, db')) :
    db'.tombstones = db.tombstones := by
  unfold failAttachment at h
  split at h
  all_goals
    obtain ⟨n, _, hupdate, h⟩ := bind_eq_ok.mp h
    obtain ⟨-, rfl⟩ := pure_eq_ok.mp h
    rw [updateAttachments, modifyGet_eq_ok, Prod.mk.injEq] at hupdate
    obtain ⟨-, rfl⟩ := hupdate
    rfl

/-- Leases of tombstones are written, not their keys. -/
theorem FileFrame.of_leases {n : Uuid} {p : StoredObjectTombstone → Bool}
    {f : StoredObjectTombstone → StoredObjectTombstone} {keep : ∀ t, (f t).id = t.id}
    (hn : db.nextId ≤ n) (hf : ∀ t, (f t).storageKey = t.storageKey) :
    FileFrame db { db with nextId := n, tombstones := db.tombstones.update p f keep } := by
  refine .of_tombstones hn rfl fun t' ht' => ?_
  dsimp only at ht'
  rw [Table.mem_update] at ht'
  obtain ⟨t, ht, rfl⟩ := ht'
  refine ⟨t, ht, ?_⟩
  split
  · exact (hf t).symm
  · rfl

/-- Claimed tombstones name the keys of tombstones, which stay. -/
theorem claimTombstones_rows {now : Time} {locked : List Uuid} {ts : List ClaimedTombstone}
    (h : claimTombstones now locked db = .ok (ts, db')) : FileFrame db db' ∧
      ∀ t ∈ ts, ∃ row ∈ db.tombstones, row.storageKey = t.storageKey := by
  rw [claimTombstones] at h
  obtain ⟨token, db₁, hdraw, h⟩ := bind_eq_ok.mp h
  obtain ⟨rfl, rfl⟩ := freshId_eq_ok.mp hdraw
  obtain ⟨_, _, hget, h⟩ := bind_eq_ok.mp h
  obtain ⟨rfl, rfl⟩ := get_eq_ok.mp hget
  obtain ⟨_, _, hmodify, h⟩ := bind_eq_ok.mp h
  obtain ⟨rfl, rfl⟩ := pure_eq_ok.mp h
  obtain rfl := (modify_eq_ok.mp hmodify)
  refine ⟨.of_leases (Nat.le_succ _) fun _ => rfl, fun t ht => ?_⟩
  obtain ⟨row, hrow, rfl⟩ := List.mem_map.mp ht
  exact ⟨row, (Table.mem_selectSorted.mp (List.mem_of_mem_take hrow)).1, rfl⟩

end

namespace System.FilesKept

variable {strict : Prop} {B : StorageKey → List UInt8 → Prop}

/-! ### The ingest runtime -/

/-- The rows of uploads and the upload requests have other keys than the claim of a worker. -/
theorem spares_held (h : s.FilesKept strict B) {p : Proc Digest} (hruns : s.Runs pid p)
    {x : ClaimedAttachment} (hx : x ∈ p.held) :
    (∀ a ∈ s.db.attachments, a.source = .upload → a.storageKey ≠ x.storageKey) ∧
      ∀ q u, s.Runs q (.upload u) → u.storageKey ≠ x.storageKey := by
  refine ⟨fun a ha hsource hkey => ?_, fun q u hu hkey => ?_⟩
  · obtain ⟨hid, hinbound⟩ := (h.held pid p hruns x hx).row a ha
    have hreceived := hinbound (hid.mpr hkey)
    rw [hsource] at hreceived
    cases hreceived
  · exact (h.uploading q u hu).unheld pid p hruns x hx hkey.symm

/-- The worker goes on with attachments that it holds. -/
theorem continues_ingest (h : s.FilesKept strict B) {w w' : IngestWorker}
    (hruns : s.Runs pid (.ingest w))
    (hheld : ∀ x ∈ (Proc.ingest w' : Proc Digest).held, x ∈ (Proc.ingest w : Proc Digest).held)
    (hfetched : strict → ∀ x n, w'.phase = some (.storing x n) →
      ∀ a ∈ s.db.attachments, a.id = x.id → (s.objects.get? a.storageKey).isSome) :
    Continues strict B s pid (.ingest w') where
  reaps := by
    intro t ht
    cases ht
  held := fun x hx => ⟨h.held pid _ hruns x (hheld x hx), fun q u _ hu =>
    ((h.spares_held hruns (hheld x hx)).2 q u hu).symm⟩
  uploading := by
    intro u hu
    cases hu
  fetched := by
    intro hs w'' x n hw
    cases hw
    exact hfetched hs x n

theorem ingest_start (h : s.FilesKept strict B) :
    (IngestWorker.start s pid c).FilesKept strict B := by
  unfold IngestWorker.start
  rcases s.transact_cases (claimPendingAttachments (s.clock c.readAt) c.locked) with
    ⟨xs, db', hx, heq⟩ | ⟨e, heq⟩
  · simp only [heq]
    obtain ⟨htombstones, hnamed⟩ := claimPendingAttachments_rows hx
    have hclaim := claimPendingAttachments_claims hx
    have hnames : ∀ x ∈ xs, x.Names s.db := by
      intro x hmem
      obtain ⟨a, ha, hid, hkey, hinbound⟩ := hnamed x hmem
      refine ⟨⟨hid ▸ (h.keys.drawn a ha).1, hkey ▸ (h.keys.drawn a ha).2⟩,
        fun b hb => ⟨⟨fun heq => ?_, fun heq => ?_⟩, fun heq => ?_⟩⟩
      · obtain rfl := Table.key_inj hb ha (heq.trans hid.symm)
        exact hkey
      · obtain rfl := h.keys.injective b hb a ha (heq.trans hkey.symm)
        exact hid
      · obtain rfl := Table.key_inj hb ha (heq.trans hid.symm)
        exact hinbound
    have hcontinues : Continues strict B s pid (.ingest { queue := xs }) := by
      refine ⟨fun t ht => ?_, fun x hmem => ?_, fun u hu => ?_, fun _ w x n hw hphase => ?_⟩
      · cases ht
      · have hmem' : x ∈ xs := by simpa [Proc.held] using hmem
        refine ⟨hnames x hmem', fun q u _ hu hkey => ?_⟩
        obtain ⟨a, ha, -, hrow, -⟩ := hnamed x hmem'
        exact (h.uploading q u hu).free a ha (hrow.trans hkey)
      · cases hu
      · cases hw
        cases hphase
    refine (h.become hcontinues).ingest (G := { ingest := True })
      (performs_claimPendingAttachments trivial _ _ hx) htombstones fun a' ha' => ?_
    obtain ⟨a, ha, hrow⟩ := hclaim.rows a' ha'
    refine ⟨a, ha, ?_⟩
    rcases hrow with ⟨rfl, -⟩ | ⟨hleased, -⟩
    · exact ⟨rfl, fun _ hs => .inl hs⟩
    · exact ⟨hleased.id, fun _ hs => .inl (hleased.state.symm.trans hs)⟩
  · simp only [heq]
    exact h

theorem ingest_fetch (h : s.FilesKept strict B) {w : IngestWorker} {x : ClaimedAttachment}
    (hruns : s.Runs pid (.ingest w)) (hphase : w.phase = some (.fetching x)) :
    (w.fetch s pid x c).FilesKept strict B := by
  have hheld : ∀ phase : IngestPhase, phase.attachment = x →
      ∀ y ∈ (Proc.ingest { w with phase := some phase } : Proc Digest).held,
        y ∈ (Proc.ingest w : Proc Digest).held := by
    intro phase hattachment y hy
    simp only [Proc.held, hphase, Option.map_some, hattachment] at hy ⊢
    exact hy
  have hx : x ∈ (Proc.ingest w : Proc Digest).held := by
    simp [Proc.held, hphase, IngestPhase.attachment]
  have hput : (s.putObject x.storageKey c.bytes).FilesKept strict B :=
    h.put (h.spares_held hruns hx).1 (h.spares_held hruns hx).2
  unfold IngestWorker.fetch
  split
  · exact h.become (h.continues_ingest hruns (hheld _ rfl) fun _ _ _ hn => by cases hn)
  split
  · exact h.become (h.continues_ingest hruns (hheld _ rfl) fun _ _ _ hn => by cases hn)
  split
  · exact hput.become (hput.continues_ingest hruns (hheld _ rfl) fun _ _ _ hn => by cases hn)
  · refine hput.become (hput.continues_ingest hruns (hheld _ rfl) fun _ y n hn a ha hid => ?_)
    cases hn
    have hkey := ((h.held pid _ hruns x hx).row a ha).1.mp hid
    have hget : (s.putObject x.storageKey c.bytes).objects.get? a.storageKey =
        some (x.storageKey, c.bytes) := by
      rw [hkey]
      exact (Table.get?_set x.storageKey).trans (if_pos rfl)
    rw [hget]
    rfl

theorem ingest_store (h : s.FilesKept strict B) {w : IngestWorker} {x : ClaimedAttachment} {n : ℕ}
    (hruns : s.Runs pid (.ingest w)) (hphase : w.phase = some (.storing x n)) :
    (w.store s pid x n c).FilesKept strict B := by
  have hheld : ∀ phase : Option IngestPhase, (∀ p, phase = some p → p.attachment = x) →
      ∀ y ∈ (Proc.ingest { w with phase := phase } : Proc Digest).held,
        y ∈ (Proc.ingest w : Proc Digest).held := by
    intro phase hattachment y hy
    cases phase with
    | none =>
        simp only [Proc.held, hphase, Option.map_some] at hy ⊢
        exact List.mem_append_right _ hy
    | some p =>
        simp only [Proc.held, hphase, Option.map_some, hattachment p rfl] at hy ⊢
        exact hy
  unfold IngestWorker.store
  split
  · refine h.become (h.continues_ingest hruns (hheld (some (.failing x infrastructureError)) ?_)
      fun _ _ _ hn => by cases hn)
    rintro p ⟨⟩
    rfl
  rcases s.transact_cases (storeIngested x n) with ⟨updated, db', hx, heq⟩ | ⟨e, heq⟩
  · obtain ⟨hreport, -⟩ := storeIngested_reports hx
    have hstored : ({ s with db := db' } : System Digest).FilesKept strict B := by
      refine h.ingest (G := { ingest := True }) (performs_storeIngested trivial _ _ hx)
        (storeIngested_tombstones hx)
        fun a' ha' => ?_
      obtain ⟨a, ha, hrow⟩ := hreport.rows a' ha'
      refine ⟨a, ha, ?_⟩
      rcases hrow with ⟨rfl, -⟩ | ⟨hreleased, -, hown⟩
      · exact ⟨rfl, fun _ hs => .inl hs⟩
      · simp only [ClaimedAttachment.owns, Bool.and_eq_true, beq_iff_eq] at hown
        exact ⟨hreleased.id, fun hs _ => .inr (h.fetched hs pid w x n hruns hphase a ha hown.1)⟩
    cases updated with
    | true =>
        simp only [heq]
        refine hstored.become
          (hstored.continues_ingest hruns (hheld none ?_) fun _ _ _ hn => by cases hn)
        rintro p ⟨⟩
    | false =>
        simp only [heq]
        refine hstored.become
          (hstored.continues_ingest hruns (hheld (some (.lost x)) ?_) fun _ _ _ hn => by cases hn)
        rintro p ⟨⟩
        rfl
  · simp only [heq]
    refine h.become (h.continues_ingest hruns (hheld (some (.failing x infrastructureError)) ?_)
      fun _ _ _ hn => by cases hn)
    rintro p ⟨⟩
    rfl

/-- A key that no protected row has is condemned. -/
theorem condemn (h : s.FilesKept strict B) (now : Time) {key : StorageKey}
    (hspares : Spares strict s s.db key) :
    (s.transact (deleteStoredObject now key)).2.FilesKept strict B := by
  have hperforms : Performs .routine s.db (tombstoneFor now key s.db) :=
    .single (.tombstone now key)
  obtain ⟨n, tombstones, hn, heq, htombstones⟩ := tombstoneFor_tombstoned now key s.db
  rw [heq] at hperforms
  change ({ s with db := tombstoneFor now key s.db } : System Digest).FilesKept strict B
  rw [heq]
  refine h.rewrite (hperforms.filed h.filed) ⟨fun a ha => ?_, h.keys.injective⟩ hn
    (fun a ha => .inl ⟨a, ha, .refl a, fun _ hs => .inl hs⟩) fun t ht => ?_
  · obtain ⟨hid, hkey⟩ := h.keys.drawn a ha
    exact ⟨hid.trans_le hn, hkey.trans_le hn⟩
  · rcases htombstones t ht with hold | hkey
    · exact .inl hold
    · rw [List.mem_singleton.mp hkey]
      exact .inr ⟨hspares.drawn.trans_le hn, hspares.rows, hspares.uploads⟩

theorem ingest_step (h : s.FilesKept strict B) {w : IngestWorker} (hruns : s.Runs pid (.ingest w))
    (hlost : strict → ∀ x, w.phase = some (.lost x) →
      ∀ a ∈ s.db.attachments, a.storageKey ≠ x.storageKey) :
    (w.step s pid c).FilesKept strict B := by
  obtain ⟨queue, phase⟩ := w
  cases phase with
  | none =>
      cases queue with
      | nil => exact h.finish pid
      | cons x queue =>
          refine h.become (h.continues_ingest hruns (fun y hy => ?_) fun _ _ _ hn => by cases hn)
          simpa [Proc.held, IngestPhase.attachment] using hy
  | some phase =>
      cases phase with
      | fetching x => exact h.ingest_fetch hruns rfl
      | storing x n => exact h.ingest_store hruns rfl
      | lost x =>
          have hx : x ∈ (Proc.ingest ⟨queue, some (.lost x)⟩ : Proc Digest).held := by
            simp [Proc.held, IngestPhase.attachment]
          have hspares : Spares strict s s.db x.storageKey := by
            refine ⟨(h.held pid _ hruns x hx).drawn.2, fun a ha hprotected => ?_, fun q u hu _ =>
              (h.spares_held hruns hx).2 q u hu⟩
            rcases hprotected with hsource | hs
            · exact (h.spares_held hruns hx).1 a ha hsource
            · exact hlost hs x rfl a ha
          have hcondemned := h.condemn s.now hspares
          refine hcondemned.become
            (hcondemned.continues_ingest hruns (fun y hy => ?_) fun _ _ _ hn => by cases hn)
          simpa [Proc.held, IngestPhase.attachment] using hy
      | failing x error =>
          obtain ⟨db', hx, hreport⟩ := failAttachment_reports s.now x error
          have hdb : (s.transact (failAttachment s.now x error)).2 = { s with db := db' } := by
            rw [System.transact, execute, hx]
          have hfailed : ({ s with db := db' } : System Digest).FilesKept strict B := by
            refine h.ingest (G := { ingest := True }) (performs_failAttachment trivial _ _ _ hx)
              (failAttachment_tombstones hx) fun a' ha' => ?_
            obtain ⟨a, ha, hrow⟩ := hreport.rows a' ha'
            refine ⟨a, ha, ?_⟩
            rcases hrow with ⟨rfl, -⟩ | ⟨hreleased, hfails, -⟩
            · exact ⟨rfl, fun _ hs => .inl hs⟩
            · refine ⟨hreleased.id, fun _ hs => ?_⟩
              rcases hfails with hfailed | ⟨-, hstate⟩
              · rw [hs] at hfailed
                cases hfailed
              · exact .inl (hstate.symm.trans hs)
          simp only [IngestWorker.step, hdb]
          refine hfailed.become
            (hfailed.continues_ingest hruns (fun y hy => ?_) fun _ _ _ hn => by cases hn)
          simp only [Proc.held, Option.map_none, Option.toList_none, List.nil_append,
            Option.map_some] at hy ⊢
          exact List.mem_append_right _ hy

/-! ### The reaper -/

/-- The reaper goes on with tombstones that are condemned already. -/
theorem continues_reaper {phase : ReaperPhase}
    (hreaps : ∀ t ∈ phase.claims, s.Condemned t.storageKey) :
    Continues strict B s pid (.reaper phase) where
  reaps := hreaps
  held := by
    intro x hx
    cases hx
  uploading := by
    intro u hu
    cases hu
  fetched := by
    intro _ w x n hw
    cases hw

theorem reaper_start (h : s.FilesKept strict B) :
    (ReaperPhase.start s pid c).FilesKept strict B := by
  have hperforms : Performs { expire := True } s.db (s.transact (expireUnreferencedUploads s.now
      (s.clock c.readAt - unreferencedUploadTtlMs))).2.db :=
    performs_transact (performs_expireUnreferencedUploads _ _ trivial)
  have hexpired := h.frame hperforms (deleteAttachments_files _ _ _)
  refine hexpired.become (continues_reaper fun t ht => ?_)
  cases ht

theorem reaper_step (h : s.FilesKept strict B) {phase : ReaperPhase}
    (hruns : s.Runs pid (.reaper phase)) :
    (phase.step s pid c).FilesKept strict B := by
  have hclaims : ∀ t ∈ phase.claims, s.Condemned t.storageKey := fun t ht =>
    .inr ⟨pid, _, hruns, t, ht, rfl⟩
  cases phase with
  | claiming =>
      simp only [ReaperPhase.step]
      rcases s.transact_cases (claimTombstones (s.clock c.readAt) c.locked) with
        ⟨ts, db', hx, heq⟩ | ⟨e, heq⟩
      · simp only [heq]
        obtain ⟨hframe, hnamed⟩ := claimTombstones_rows hx
        have hcontinues : Continues strict B s pid (.reaper (.deleting ts)) :=
          continues_reaper fun t ht => .inl (hnamed t ht)
        exact (h.become hcontinues).frame (G := .routine) (performs_claimTombstones _ _ hx) hframe
      · simp only [heq]
        exact h.finish pid
  | deleting ts =>
      cases ts with
      | nil => exact h.finish pid
      | cons t rest =>
          have hremoved := h.remove (hclaims t List.mem_cons_self)
          have hstill : ∀ u ∈ t :: rest, (s.removeObject t.storageKey).Condemned u.storageKey :=
            fun u hu => .inr ⟨pid, _, hruns, u, hu, rfl⟩
          simp only [ReaperPhase.step, ReaperPhase.remove]
          split
          · exact hremoved.become (continues_reaper hstill)
          · split
            · exact h.become (continues_reaper hclaims)
            · exact hremoved.become (continues_reaper hstill)
  | finishing t rest =>
      have hframe : FileFrame s.db (s.transact (finishTombstone t)).2.db :=
        .of_tombstones le_rfl rfl fun t' ht' => ⟨t', (Table.mem_delete.mp ht').1, rfl⟩
      have hfinished := h.frame (ReaperPhase.performs_finishTombstone t) hframe
      exact hfinished.become
        (continues_reaper fun u hu => .inr ⟨pid, _, hruns, u, List.mem_cons_of_mem t hu, rfl⟩)
  | retrying t name rest =>
      have hframe : FileFrame s.db (s.transact (retryTombstone s.now t name)).2.db :=
        .of_leases le_rfl fun _ => rfl
      have hperforms : Performs .routine s.db (s.transact (retryTombstone s.now t name)).2.db :=
        performs_transact (performs_retryTombstone _ _ _)
      have hretried := h.frame hperforms hframe
      exact hretried.become
        (continues_reaper fun u hu => .inr ⟨pid, _, hruns, u, List.mem_cons_of_mem t hu, rfl⟩)

/-! ### Uploads -/

theorem continues_upload {u : UploadHandler} (hup : (s.become pid (.upload u)).Uploading B pid u) :
    Continues strict B s pid (.upload u) where
  reaps := by
    intro t ht
    cases ht
  held := by
    intro x hx
    cases hx
  uploading := by
    rintro u' ⟨⟩
    exact hup
  fetched := by
    intro _ w x n hw
    cases hw

/-- The object of an upload is written under a key that was never drawn. -/
theorem upload_start (h : s.FilesKept strict B)
    (hB : ∀ key bytes, s.db.nextId ≤ key.id → B key bytes) {filename contentType : Option JsString}
    (hs : UploadHandler.start rt s pid filename contentType c = some s') :
    s'.FilesKept strict B := by
  unfold UploadHandler.start at hs
  split at hs
  case isFalse => cases hs
  dsimp only at hs
  have hperforms : Performs .routine s.db { s.db with nextId := s.db.nextId + 1 } := performs_draw _
  have hdrawn := h.frame hperforms (.of_eq (Nat.le_succ _) rfl rfl)
  have hrows : ∀ a ∈ s.db.attachments, a.storageKey ≠ ⟨s.config.keyPrefix, s.db.nextId⟩ := by
    intro a ha hkey
    have hlt := (h.keys.drawn a ha).2
    rw [hkey] at hlt
    exact Nat.lt_irrefl _ hlt
  have huploads : ∀ q u, s.Runs q (.upload u) →
      u.storageKey ≠ ⟨s.config.keyPrefix, s.db.nextId⟩ := by
    intro q u hu hkey
    have hlt := (h.uploading q u hu).drawn
    rw [hkey] at hlt
    exact Nat.lt_irrefl _ hlt
  have hput : (({ s with db := { s.db with nextId := s.db.nextId + 1 } } : System Digest).putObject
      ⟨s.config.keyPrefix, s.db.nextId⟩ c.bytes).FilesKept strict B := hdrawn.put (fun a ha _ =>
        hrows a ha) huploads
  split at hs
  · cases hs
    exact hput
  · cases hs
    refine hput.become (continues_upload ⟨Nat.lt_succ_self _, hrows, fun q u hu hkey => ?_,
      fun q p hp x hx hkey => ?_, fun _ => ⟨fun hc => ?_, c.bytes, ?_, rfl, hB _ _ le_rfl⟩⟩)
    · rcases runs_become.mp hu with ⟨heq, -⟩ | ⟨-, hother⟩
      · exact heq
      · exact absurd hkey (huploads q u hother)
    · rcases runs_become.mp hp with ⟨-, rfl⟩ | ⟨-, hother⟩
      · cases hx
      · have hlt := (h.held q p hother x hx).drawn.2
        rw [hkey] at hlt
        exact Nat.lt_irrefl _ hlt
    · have hold : s.Condemned ⟨s.config.keyPrefix, s.db.nextId⟩ :=
        condemned_become (fun t ht => by cases ht) hc
      exact Nat.lt_irrefl _ (h.drawn _ hold)
    · exact (Table.get?_set _).trans (if_pos rfl)

/-- The row of an upload takes over the object of its request. -/
theorem upload_create (h : s.FilesKept strict B) {u : UploadHandler}
    (hruns : s.Runs pid (.upload u)) (hf : u.failed = false) {id : Uuid} {db' : Database Digest}
    (hx : createUpload s.now u.filename u.contentType u.sizeBytes u.storageKey s.db =
      .ok (id, db')) :
    (({ s with db := db' } : System Digest).finish pid).FilesKept strict B := by
  have hup := h.uploading pid u hruns
  obtain ⟨hspared, bytes, hbytes, hlength, hB⟩ := hup.written hf
  have hperforms : Performs (.uploading s.now u) s.db db' := performs_createUpload (fun _ => rfl) hx
  have hfiled := hperforms.filed h.filed
  simp only [createUpload, bind_eq_ok, freshId_eq_ok, pure_eq_ok] at hx
  obtain ⟨_, _, ⟨rfl, rfl⟩, _, _, hcreate, -, rfl⟩ := hx
  obtain ⟨-, table, hinsert, rfl⟩ := createAttachment_eq_ok hcreate
  have hrows := fun a => @Table.mem_insert? _ _ _ _ s.db.attachments table _ a hinsert
  have hcondemned : ∀ key, (({ s with db :=
      { s.db with nextId := s.db.nextId + 1, attachments := table } } : System Digest).finish
        pid).Condemned key → s.Condemned key := by
    rintro key (hold | ⟨q, p, hp, hreaps⟩)
    · exact .inl hold
    · exact .inr ⟨q, p, (runs_finish.mp hp).2, hreaps⟩
  refine ⟨hfiled, ⟨fun a ha => ?_, fun a ha b hb hkey => ?_⟩,
    fun key hc => (h.drawn key (hcondemned key hc)).trans (Nat.lt_succ_self _),
    fun a ha hsource => ?_, fun a ha hprotected => ?_, fun q v hv => ?_, fun q p hp x hmem =>
      ?_, fun hs q w x n hw hphase a ha haid => ?_⟩
  · rcases (hrows a).mp ha with hold | rfl
    · exact ⟨(h.keys.drawn a hold).1.trans (Nat.lt_succ_self _),
        (h.keys.drawn a hold).2.trans (Nat.lt_succ_self _)⟩
    · exact ⟨Nat.lt_succ_self _, hup.drawn.trans (Nat.lt_succ_self _)⟩
  · rcases (hrows a).mp ha with hold | rfl
    · rcases (hrows b).mp hb with hold' | rfl
      · exact h.keys.injective a hold b hold' hkey
      · exact absurd hkey (hup.free a hold)
    · rcases (hrows b).mp hb with hold' | rfl
      · exact absurd hkey.symm (hup.free b hold')
      · rfl
  · rcases (hrows a).mp ha with hold | rfl
    · exact h.stored a hold hsource
    · rfl
  · rcases (hrows a).mp ha with hold | rfl
    · obtain ⟨hspared', hholds⟩ := h.kept a hold hprotected
      exact ⟨fun hc => hspared' (hcondemned _ hc), hholds⟩
    · exact ⟨fun hc => hspared (hcondemned _ hc), fun _ => ⟨bytes, hbytes, fun _ => ⟨hlength, hB⟩⟩⟩
  · obtain ⟨hne, hother⟩ := runs_finish.mp hv
    have hup' := h.uploading q v hother
    refine ⟨hup'.drawn.trans (Nat.lt_succ_self _), fun a ha hkey => ?_,
      fun r v' hv' => hup'.alone r v' (runs_finish.mp hv').2,
      fun r p hp => hup'.unheld r p (runs_finish.mp hp).2, fun hvf => ?_⟩
    · rcases (hrows a).mp ha with hold | rfl
      · exact hup'.free a hold hkey
      · exact hne (hup.alone q v hother hkey.symm)
    · obtain ⟨hspared', hobject⟩ := hup'.written hvf
      exact ⟨fun hc => hspared' (hcondemned _ hc), hobject⟩
  · have hother := (runs_finish.mp hp).2
    have hnames := h.held q p hother x hmem
    refine ⟨⟨hnames.drawn.1.trans (Nat.lt_succ_self _), hnames.drawn.2.trans (Nat.lt_succ_self _)⟩,
      fun a ha => ?_⟩
    rcases (hrows a).mp ha with hold | rfl
    · exact hnames.row a hold
    · have hid : s.db.nextId ≠ x.id := hnames.drawn.1.ne'
      have hkey : u.storageKey ≠ x.storageKey := (hup.unheld q p hother x hmem).symm
      exact ⟨⟨fun heq => absurd heq hid, fun heq => absurd heq hkey⟩, fun heq => absurd heq hid⟩
  · have hother := (runs_finish.mp hw).2
    have hmem : x ∈ (Proc.ingest w : Proc Digest).held := by
      simp [Proc.held, hphase, IngestPhase.attachment]
    rcases (hrows a).mp ha with hold | rfl
    · exact h.fetched hs q w x n hother hphase a hold haid
    · exact absurd haid (h.held q _ hother x hmem).drawn.1.ne'

theorem upload_step (h : s.FilesKept strict B) {u : UploadHandler}
    (hruns : s.Runs pid (.upload u)) :
    (u.step s pid c).FilesKept strict B := by
  have hup := h.uploading pid u hruns
  have hfailed : (s.become pid (.upload { u with failed := true })).FilesKept strict B := by
    refine h.become
      (continues_upload ⟨hup.drawn, hup.free, fun q v hv hkey => ?_, fun q p hp x hx => ?_,
      fun hf => ?_⟩)
    · rcases runs_become.mp hv with ⟨heq, -⟩ | ⟨-, hother⟩
      · exact heq
      · exact hup.alone q v hother hkey
    · rcases runs_become.mp hp with ⟨-, rfl⟩ | ⟨-, hother⟩
      · cases hx
      · exact hup.unheld q p hother x hx
    · cases hf
  unfold UploadHandler.step
  split
  next hf =>
    refine (h.condemn s.now ⟨hup.drawn, fun a ha _ => hup.free a ha, fun q v hv hvf hkey =>
      ?_⟩).finish pid
    obtain rfl := hup.alone q v hv hkey
    have hsame : (Proc.upload v : Proc Digest) = .upload u := hv.unique hruns
    cases hsame
    rw [hf] at hvf
    cases hvf
  next hf =>
    split
    · exact hfailed
    rcases s.transact_cases
      (createUpload s.now u.filename u.contentType u.sizeBytes u.storageKey) with
      ⟨id, db', hx, heq⟩ | ⟨e, heq⟩
    · simp only [heq]
      exact h.upload_create hruns (by simpa using hf) hx
    · simp only [heq]
      exact hfailed

end System.FilesKept

/-! ### Tombstones -/

/-- The identifiers of the tombstones are drawn. -/
def Database.TombstonesDrawn (db : Database Digest) : Prop := ∀ t ∈ db.tombstones, t.id < db.nextId

section
variable {G : Grant Digest} {db db' : Database Digest}

theorem Database.TombstonesDrawn.tombstoneFor (h : db.TombstonesDrawn) (now : Time)
    (key : StorageKey) :
    (tombstoneFor now key db).TombstonesDrawn := by
  unfold ResendConversation.tombstoneFor
  split
  · exact h
  split
  · exact h
  next tombstones hinsert =>
    intro t ht
    rcases (Table.mem_insert? hinsert).mp ht with hold | rfl
    · exact (h t hold).trans (Nat.lt_succ_self _)
    · exact Nat.lt_succ_self _

theorem Database.TombstonesDrawn.deleteAttachments (h : db.TombstonesDrawn) (now : Time)
    (p : EmailAttachment → Bool) :
    (deleteAttachments now p db).TombstonesDrawn := by
  have hfold : ∀ (keys : List StorageKey) (db : Database Digest), db.TombstonesDrawn →
      (keys.foldl (fun db key => ResendConversation.tombstoneFor now key db)
        db).TombstonesDrawn := by
    intro keys
    induction keys with
    | nil => exact fun _ h => h
    | cons key keys ih => exact fun db h => ih _ (h.tombstoneFor now key)
  exact hfold _ db h

theorem Statement.tombstones_drawn (h : Statement G db db') (hd : db.TombstonesDrawn) :
    db'.TombstonesDrawn := by
  have hle := h.nextId_le
  cases h with
  | delete now ids granted => exact hd.deleteAttachments now _
  | expire now p granted selects => exact hd.deleteAttachments now p
  | tombstone now key => exact hd.tombstoneFor now key
  | leaseTombstones p f keep key =>
      intro t ht
      dsimp only at ht
      rw [Table.mem_update] at ht
      obtain ⟨row, hrow, rfl⟩ := ht
      rw [Table.key_ite keep]
      exact hd row hrow
  | finish p granted => exact fun t ht => hd t (Table.mem_delete.mp ht).1
  | _ => exact fun t ht => (hd t ht).trans_le hle

theorem Reachable.tombstones_drawn [DecidableEq Digest] (h : Reachable rt s) :
    s.db.TombstonesDrawn := by
  obtain ⟨config, now, hrun⟩ := h
  refine hrun.invariant (I := fun s => s.db.TombstonesDrawn) ?_ fun _ _ _ hd _ hs =>
    (step_performs hs).invariant hd fun _ _ hd hstatement => hstatement.tombstones_drawn hd
  intro t ht
  cases ht

/-- A condemned key has a tombstone. -/
theorem mem_tombstoneFor (hd : db.TombstonesDrawn) (now : Time) (key : StorageKey) :
    ∃ t ∈ (tombstoneFor now key db).tombstones, t.storageKey = key := by
  unfold tombstoneFor
  split
  next hany =>
    obtain ⟨t, ht, hkey⟩ := List.any_eq_true.mp hany
    exact ⟨t, ht, beq_iff_eq.mp hkey⟩
  · have hfree : db.tombstones.get? db.nextId = none :=
      Table.get?_eq_none.mpr fun t ht hid => Nat.lt_irrefl _ (hid ▸ hd t ht)
    obtain ⟨table, hinsert⟩ := Table.insert?_eq_some_iff.mpr
      (show db.tombstones.get? (StoredObjectTombstone.id
        { id := db.nextId, storageKey := key, nextAttemptAt := now }) = none from hfree)
    rw [hinsert]
    exact ⟨_, (Table.mem_insert? hinsert).mpr (.inr rfl), rfl⟩

end

/-! ### Runs -/

/-- The step condemns the object of a row whose lease its worker has lost. -/
def System.condemnsRow (s : System Digest) : Action Digest → Bool
  | .run pid _ =>
      match s.procs.get? pid with
      | some (_, .ingest { phase := some (.lost x), .. }) =>
          s.db.attachments.rows.any fun a => a.storageKey == x.storageKey
      | _ => false
  | _ => false

/-- No object of a row is about to be removed, and stored rows have theirs. -/
def System.ObjectsKept (s : System Digest) : Prop :=
  ∀ a ∈ s.db.attachments, ¬s.Condemned a.storageKey ∧
    (a.state = .stored → (s.objects.get? a.storageKey).isSome)

/-- The bytes of the uploads are those of their objects now. -/
theorem System.FilesKept.pinned {strict : Prop} {B : StorageKey → List UInt8 → Prop}
    (h : s.FilesKept strict B) :
    s.FilesKept strict fun key bytes => key.id < s.db.nextId →
      s.objects.get? key = some (key, bytes) :=
  { h with
    kept := by
      intro a ha hprotected
      obtain ⟨hspared, hholds⟩ := h.kept a ha hprotected
      refine ⟨hspared, fun hstored => ?_⟩
      obtain ⟨bytes, hbytes, hupload⟩ := hholds hstored
      exact ⟨bytes, hbytes, fun hsource => ⟨(hupload hsource).1, fun _ => hbytes⟩⟩
    uploading := by
      intro pid u hu
      have hup := h.uploading pid u hu
      refine ⟨hup.drawn, hup.free, hup.alone, hup.unheld, fun hf => ?_⟩
      obtain ⟨hspared, bytes, hbytes, hlength, -⟩ := hup.written hf
      exact ⟨hspared, bytes, hbytes, hlength, fun _ => hbytes⟩ }

theorem System.FilesKept.objectsKept {B : StorageKey → List UInt8 → Prop} (h : s.FilesKept True B) :
    s.ObjectsKept := by
  intro a ha
  obtain ⟨hspared, hholds⟩ := h.kept a ha (.inr trivial)
  refine ⟨hspared, fun hstored => ?_⟩
  obtain ⟨bytes, hbytes, -⟩ := hholds hstored
  rw [hbytes]
  rfl

section
variable [DecidableEq Digest]

/-- What a step that condemns the object of a row leaves behind. -/
theorem tombstone_of_condemnsRow (hd : s.db.TombstonesDrawn) {a : Action Digest}
    (hcondemns : s.condemnsRow a = true) (hs : step rt s a = some s') :
    ∃ row ∈ s'.db.attachments, ∃ t ∈ s'.db.tombstones,
      t.storageKey = row.storageKey := by
  unfold System.condemnsRow at hcondemns
  split at hcondemns
  case h_2 => cases hcondemns
  next pid c =>
    split at hcondemns
    case h_2 => cases hcondemns
    next p queue x hget =>
      obtain ⟨row, hrow, hkey⟩ := List.any_eq_true.mp hcondemns
      rw [beq_iff_eq] at hkey
      simp only [step, hget, Option.bind_some, runProc, IngestWorker.step] at hs
      cases hs
      obtain ⟨t, ht, htkey⟩ := mem_tombstoneFor hd s.now x.storageKey
      obtain ⟨n, tombstones, -, heq, -⟩ := tombstoneFor_tombstoned s.now x.storageKey s.db
      refine ⟨row, ?_, t, ht, htkey.trans hkey.symm⟩
      change row ∈ (tombstoneFor s.now x.storageKey s.db).attachments
      rw [heq]
      exact hrow

theorem System.FilesKept.step {strict : Prop} {B : StorageKey → List UInt8 → Prop}
    (h : s.FilesKept strict B) (hB : ∀ key bytes, s.db.nextId ≤ key.id → B key bytes)
    {a : Action Digest} (hspares : strict → s.condemnsRow a = false) (hs : step rt s a = some s') :
    s'.FilesKept strict B := by
  by_cases hfiles : s.Files a
  · rcases hfiles with ⟨pid, job, c, rfl, hjob⟩ | ⟨pid, c, p, rfl, hruns, hp⟩
    · simp only [ResendConversation.step] at hs
      split at hs
      case isFalse => cases hs
      rcases hjob with rfl | rfl | ⟨filename, contentType, rfl⟩
      · simp only [startJob] at hs
        split at hs
        · cases hs
          exact h.ingest_start
        · cases hs
      · simp only [startJob] at hs
        split at hs
        · cases hs
          exact h.reaper_start
        · cases hs
      · exact h.upload_start hB hs
    · have hget : s.procs.get? pid = some (pid, p) := hruns
      simp only [ResendConversation.step, hget, Option.bind_some] at hs
      cases p with
      | ingest w =>
          cases hs
          refine h.ingest_step hruns fun hstrict x hphase a ha hkey => ?_
          have hnot := hspares hstrict
          simp only [condemnsRow, hget] at hnot
          obtain ⟨queue, phase⟩ := w
          simp only at hphase
          subst hphase
          rw [List.any_eq_false] at hnot
          exact hnot a ha (beq_iff_eq.mpr hkey)
      | reaper phase =>
          cases hs
          exact h.reaper_step hruns
      | upload u =>
          cases hs
          exact h.upload_step hruns
      | _ => cases hp
  · have hapart := (step_effect hs).files_apart hfiles
    exact (h.frame (step_performs hs) hapart.frame).retire rfl hapart.objects hapart.retires

/-- In every reachable state an upload has its object, with its size, and nobody is about to
remove it; the bytes are those of the object in every earlier state of the run. -/
theorem Reachable.uploads_kept (h : Reachable rt s) (hrun : Run (step rt) Always s s')
    {a : EmailAttachment} (ha : a ∈ s'.db.attachments) (hsource : a.source = .upload) :
    a.state = .stored ∧ ¬s'.Condemned a.storageKey ∧
      ∃ bytes, s'.objects.get? a.storageKey = some (a.storageKey, bytes) ∧
        bytes.length = a.sizeBytes ∧ ∀ b ∈ s.db.attachments, b.storageKey = a.storageKey →
          s.objects.get? a.storageKey = some (a.storageKey, bytes) := by
  obtain ⟨config, now, hstart⟩ := h
  have hkept : s.FilesKept False fun _ _ => True :=
    hstart.invariant (I := fun s => s.FilesKept False fun _ _ => True) (.initial config now)
      fun _ _ _ hk _ hs =>
      hk.step (fun _ _ _ => trivial) (fun h => h.elim) hs
  obtain ⟨-, hkept'⟩ := hrun.invariant (I := fun t => s.db.nextId ≤ t.db.nextId ∧
      t.FilesKept False fun key bytes => key.id < s.db.nextId →
        s.objects.get? key = some (key, bytes))
    ⟨le_rfl, hkept.pinned⟩ fun t action t' hk _ hs =>
      ⟨hk.1.trans (nextId_le_performs (step_performs hs)),
      hk.2.step (fun key bytes hle hlt => absurd hlt (Nat.not_lt.mpr (hk.1.trans hle)))
        (fun h => h.elim) hs⟩
  have hstored := hkept'.stored a ha hsource
  obtain ⟨hspared, hholds⟩ := hkept'.kept a ha (.inl hsource)
  obtain ⟨bytes, hbytes, hupload⟩ := hholds hstored
  refine ⟨hstored, hspared, bytes, hbytes, (hupload hsource).1,
    fun b hb hkey => (hupload hsource).2 ?_⟩
  rw [← hkey]
  exact (hkept.keys.drawn b hb).2

/-- An upload survives a cycle of the reaper. -/
theorem uploads_kept_reference :
    ∃ s s' : System SendRequest, s.db.attachments.rows ≠ [] ∧ s.now < s'.now ∧
      ∃ a ∈ s'.db.attachments.rows, a.state = .stored ∧ ¬s'.Condemned a.storageKey ∧
        ∃ bytes, s'.objects.get? a.storageKey = some (a.storageKey, bytes) ∧
          bytes.length = a.sizeBytes ∧ ∀ b ∈ s.db.attachments, b.storageKey = a.storageKey →
            s.objects.get? a.storageKey = some (a.storageKey, bytes) := by
  obtain ⟨s, s', hstart, hrun, hrows, hnow, a, ha, hsource⟩ :
      ∃ s s', Run (step .reference) Always .reference s ∧ Run (step .reference) Always s s' ∧
        s.db.attachments.rows ≠ [] ∧ s.now < s'.now ∧ ∃ a ∈ s'.db.attachments.rows,
          a.source = .upload :=
    Run.exists_of_exec_exec [.start 1 (.upload (some (js "f.txt")) (some (js "text/plain")))
      { bytes := [1, 2] }, .run 1 {}]
      [.tick 1000, .start 1 .reaper {}, .run 1 {}, .run 1 {}] (by decide +kernel)
  exact ⟨s, s', hrows, hnow, a, ha,
    Reachable.uploads_kept (Reachable.of_run hstart) hrun ha hsource⟩

/-- In runs where no worker condemns the object of a row that is still there, stored rows have
their objects and nobody is about to remove one.  A step that does breaks this. -/
theorem Run.objects_kept {config : Config} {now : Time}
    (h : Run (step rt) (fun s a => s.condemnsRow a = false) (.initial config now) s) :
    s.ObjectsKept ∧ ∀ a s', step rt s a = some s' → (s'.ObjectsKept ↔ s.condemnsRow a = false) := by
  have hkept : s.FilesKept True fun _ _ => True :=
    h.invariant (I := fun s => s.FilesKept True fun _ _ => True) (.initial config now)
      fun _ _ _ hk hok hs =>
      hk.step (fun _ _ _ => trivial) (fun _ => hok) hs
  refine ⟨hkept.objectsKept, fun a s' hs => ⟨fun hsafe => ?_, fun hok => ?_⟩⟩
  · by_contra hcondemns
    rw [Bool.not_eq_false] at hcondemns
    have hdrawn : s.db.TombstonesDrawn :=
      Reachable.tombstones_drawn ⟨config, now, h.mono fun _ _ _ => trivial⟩
    obtain ⟨row, hrow, hmem⟩ := tombstone_of_condemnsRow hdrawn hcondemns hs
    exact (hsafe row hrow).1 (.inl hmem)
  · exact (hkept.step (fun _ _ _ => trivial) (fun _ => hok) hs).objectsKept

end

/-- A worker comes late: its lease ran out after the download, and the next worker has stored
the row when it condemns the object. -/
theorem objects_kept_reference :
    ∃ s s' : System SendRequest, (∃ a ∈ s.db.attachments.rows, a.state = .stored) ∧ s.ObjectsKept ∧
      step .reference s (.run 1 {}) = some s' ∧ ¬s'.ObjectsKept := by
  obtain ⟨s, s', hrun, hs, hstored, hcondemns⟩ :
      ∃ s s', Run (step .reference) (fun s a => s.condemnsRow a = false) .reference s ∧
        step .reference s (.run 1 {}) = some s' ∧ (∃ a ∈ s.db.attachments.rows, a.state = .stored) ∧
          s.condemnsRow (.run 1 {}) = true :=
    Run.exists_of_exec_step (Reference.receive 0 (js "1") (js "1") Reference.mailWithFile ++
      [.start 1 .ingest {}, .run 1 {}, .run 1 { bytes := [1] }, .tick 300_000,
        .start 2 .ingest {}, .run 2 {},
        .run 2 { bytes := [1] }, .run 2 {}, .run 1 {}]) (.run 1 {}) (by decide +kernel)
  obtain ⟨hkept, hnext⟩ := Run.objects_kept hrun
  refine ⟨s, s', hstored, hkept, hs, fun hsafe => ?_⟩
  rw [(hnext _ s' hs).mp hsafe] at hcondemns
  cases hcondemns

end ResendConversation
