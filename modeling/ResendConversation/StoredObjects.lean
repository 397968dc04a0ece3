import ResendConversation.IngestMoves
import ResendConversation.StepEffects

/-! # Stored objects

The row of an attachment and the object that it names are written by different steps, and the
reaper removes objects by their tombstones only.  `FilesKept` says how the rows, the objects,
the tombstones and the processes at work on them stay in agreement: a row that is stored has
its object, and nobody is about to remove it.

The rows of uploads keep this agreement in every run.  Those of received attachments keep it
as long as no worker condemns the object of a row whose lease it has lost. -/

namespace ResendConversation

open Foundation Tx ResendConversation.System

variable {Digest : Type} {rt : Runtime Digest} {s s' : System Digest} {pid : ℕ} {c : Choice Digest}

/-! ### Condemned keys -/

/-- The tombstones that a reaper has claimed and not finished. -/
def ReaperPhase.claims : ReaperPhase → List ClaimedTombstone
  | .claiming => []
  | .deleting tombstones => tombstones
  | .finishing t rest => t :: rest
  | .retrying t _ rest => t :: rest

def Proc.reaps : Proc Digest → List ClaimedTombstone
  | .reaper phase => phase.claims
  | _ => []

theorem Proc.files_of_reaps {p : Proc Digest} {t : ClaimedTombstone} (h : t ∈ p.reaps) :
    p.files = true := by
  cases p with
  | reaper phase => rfl
  | _ => cases h

theorem Proc.files_of_held {p : Proc Digest} {x : ClaimedAttachment} (h : x ∈ p.held) :
    p.files = true := by
  cases p with
  | ingest w => rfl
  | _ => cases h

namespace System

/-- A tombstone names the key, or the claim of a reaper does. -/
def Condemned (s : System Digest) (key : StorageKey) : Prop :=
  (∃ t ∈ s.db.tombstones, t.storageKey = key) ∨ ∃ pid p, s.Runs pid p ∧
    ∃ t ∈ p.reaps, t.storageKey = key

/-- The object of the row, with the size of the upload if it is one. -/
def Holds (B : StorageKey → List UInt8 → Prop) (s : System Digest) (a : EmailAttachment) : Prop :=
  ∃ bytes, s.objects.get? a.storageKey = some (a.storageKey, bytes) ∧
    (a.source = .upload → bytes.length = a.sizeBytes ∧ B a.storageKey bytes)

/-- The object of an upload request, which has no row yet. -/
structure Uploading (B : StorageKey → List UInt8 → Prop) (s : System Digest) (pid : ℕ)
    (h : UploadHandler) : Prop where
  drawn : h.storageKey.id < s.db.nextId
  free : ∀ a ∈ s.db.attachments, a.storageKey ≠ h.storageKey
  alone : ∀ q h', s.Runs q (.upload h') → h'.storageKey = h.storageKey → q = pid
  unheld : ∀ q p, s.Runs q p → ∀ x ∈ p.held, x.storageKey ≠ h.storageKey
  written : h.failed = false → ¬s.Condemned h.storageKey ∧
    ∃ bytes, s.objects.get? h.storageKey = some (h.storageKey, bytes) ∧ bytes.length = h.sizeBytes ∧
      B h.storageKey bytes

end System

/-- The claim names its row, and no other row. -/
structure ClaimedAttachment.Names (x : ClaimedAttachment) (db : Database Digest) : Prop where
  drawn : x.id < db.nextId ∧ x.storageKey.id < db.nextId
  row : ∀ a ∈ db.attachments, (a.id = x.id ↔ a.storageKey = x.storageKey) ∧
    (a.id = x.id → a.source = .inbound)

/-- A row that names the same object. -/
structure EmailAttachment.SameObject (a a' : EmailAttachment) : Prop where
  id : a'.id = a.id
  source : a'.source = a.source
  storageKey : a'.storageKey = a.storageKey
  upload : a.source = .upload → a'.state = a.state ∧ a'.sizeBytes = a.sizeBytes

/-- A new row, whose object is still to be fetched. -/
structure EmailAttachment.Unfetched (db : Database Digest) (a : EmailAttachment) : Prop where
  id : db.nextId ≤ a.id
  storageKey : db.nextId ≤ a.storageKey.id
  source : a.source = .inbound
  state : a.state = .pending

/-- The rows, the objects, the tombstones and the processes agree.  `strict` is about the rows
of received attachments too, and `B` about the bytes of uploads. -/
structure System.FilesKept (strict : Prop) (B : StorageKey → List UInt8 → Prop)
    (s : System Digest) : Prop where
  filed : s.db.Filed
  keys : s.db.StorageKeys
  drawn : ∀ key, s.Condemned key → key.id < s.db.nextId
  stored : ∀ a ∈ s.db.attachments, a.source = .upload → a.state = .stored
  kept : ∀ a ∈ s.db.attachments, a.source = .upload ∨ strict →
    ¬s.Condemned a.storageKey ∧ (a.state = .stored → s.Holds B a)
  uploading : ∀ pid h, s.Runs pid (.upload h) → s.Uploading B pid h
  held : ∀ pid p, s.Runs pid p → ∀ x ∈ p.held, x.Names s.db
  /-- A worker that is about to store its row has written the object. -/
  fetched : strict → ∀ pid w x n, s.Runs pid (.ingest w) → w.phase = some (.storing x n) →
    ∀ a ∈ s.db.attachments, a.id = x.id → (s.objects.get? a.storageKey).isSome

namespace System.FilesKept

variable {strict : Prop} {B : StorageKey → List UInt8 → Prop}

theorem initial (config : Config) (now : Time) :
    (System.initial config now : System Digest).FilesKept strict B where
  filed := by constructor <;> intro x hx <;> cases hx
  keys := by constructor <;> intro a ha <;> cases ha
  drawn := by
    rintro key (⟨t, ht, -⟩ | ⟨pid, p, hp, -⟩)
    · cases ht
    · cases hp
  stored := by intro a ha; cases ha
  kept := by intro a ha; cases ha
  uploading := by intro pid h hp; cases hp
  held := by intro pid p hp; cases hp
  fetched := by intro _ pid w x n hp; cases hp

/-! ### Processes -/

/-- Processes end, and processes that leave the files alone go on. -/
theorem retire (h : s.FilesKept strict B) (db : s'.db = s.db) (objects : s'.objects = s.objects)
    (retires : ∀ pid p, s'.Runs pid p → p.files = true → s.Runs pid p) : s'.FilesKept strict B := by
  have hcondemned : ∀ key, s'.Condemned key → s.Condemned key := by
    rintro key (⟨t, ht, hkey⟩ | ⟨pid, p, hp, t, ht, hkey⟩)
    · exact .inl ⟨t, db ▸ ht, hkey⟩
    · exact .inr ⟨pid, p, retires pid p hp (Proc.files_of_reaps ht), t, ht, hkey⟩
  have hholds : ∀ a, s.Holds B a → s'.Holds B a := by
    intro a ha
    rw [Holds, objects]
    exact ha
  refine ⟨db ▸ h.filed, db ▸ h.keys, fun key hkey => ?_, db ▸ h.stored, fun a ha hprotected => ?_,
    fun pid u hu => ?_, fun pid p hp x hx => ?_, fun hs pid w x n hw hphase a ha hid => ?_⟩
  · rw [db]
    exact h.drawn key (hcondemned key hkey)
  · have hkept := h.kept a (db ▸ ha) hprotected
    exact ⟨fun hc => hkept.1 (hcondemned _ hc), fun hs => hholds a (hkept.2 hs)⟩
  · have hup := h.uploading pid u (retires _ _ hu rfl)
    refine ⟨db ▸ hup.drawn, db ▸ hup.free, fun q u' hu' => hup.alone q u' (retires _ _ hu' rfl),
      fun q p hp x hx => hup.unheld q p (retires q p hp (Proc.files_of_held hx)) x hx, fun hf => ?_⟩
    obtain ⟨hspared, hobject⟩ := hup.written hf
    exact ⟨fun hc => hspared (hcondemned _ hc), objects ▸ hobject⟩
  · rw [db]
    exact h.held pid p (retires pid p hp (Proc.files_of_held hx)) x hx
  · rw [objects]
    exact h.fetched hs pid w x n (retires _ _ hw rfl) hphase a (db ▸ ha) hid

theorem finish (h : s.FilesKept strict B) (pid : ℕ) : (s.finish pid).FilesKept strict B :=
  h.retire rfl rfl fun _ _ hp _ => (runs_finish.mp hp).2

/-- The next state of a process. -/
structure Continues (strict : Prop) (B : StorageKey → List UInt8 → Prop) (s : System Digest)
    (pid : ℕ) (p : Proc Digest) : Prop where
  reaps : ∀ t ∈ p.reaps, s.Condemned t.storageKey
  held : ∀ x ∈ p.held, x.Names s.db ∧ ∀ q u, q ≠ pid → s.Runs q (.upload u) →
    x.storageKey ≠ u.storageKey
  uploading : ∀ u, p = .upload u → (s.become pid p).Uploading B pid u
  fetched : strict → ∀ w x n, p = .ingest w → w.phase = some (.storing x n) →
    ∀ a ∈ s.db.attachments, a.id = x.id → (s.objects.get? a.storageKey).isSome

theorem condemned_become {p : Proc Digest} (hreaps : ∀ t ∈ p.reaps, s.Condemned t.storageKey)
    {key : StorageKey} (h : (s.become pid p).Condemned key) : s.Condemned key := by
  rcases h with h | ⟨q, p', hp, t, ht, rfl⟩
  · exact .inl h
  · rcases runs_become.mp hp with ⟨-, rfl⟩ | ⟨-, hp⟩
    · exact hreaps t ht
    · exact .inr ⟨q, p', hp, t, ht, rfl⟩

theorem become (h : s.FilesKept strict B) {p : Proc Digest} (hp : Continues strict B s pid p) :
    (s.become pid p).FilesKept strict B := by
  refine ⟨h.filed, h.keys, fun key hkey => h.drawn key (condemned_become hp.reaps hkey), h.stored,
    fun a ha hprotected => ?_, fun q u hu => ?_, fun q p' hq x hx =>
      ?_, fun hs q w x n hw hphase a ha hid => ?_⟩
  · obtain ⟨hspared, hholds⟩ := h.kept a ha hprotected
    exact ⟨fun hc => hspared (condemned_become hp.reaps hc), hholds⟩
  · rcases runs_become.mp hu with ⟨heq, hown⟩ | ⟨hne, hother⟩
    · subst heq
      exact hp.uploading u hown.symm
    · have hup := h.uploading q u hother
      refine ⟨hup.drawn, hup.free, fun r u' hu' hkey => ?_, fun r p' hr x hx => ?_, fun hf => ?_⟩
      · rcases runs_become.mp hu' with ⟨heq, hown⟩ | ⟨-, hother'⟩
        · have hsame := (hp.uploading u' hown.symm).alone q u hu hkey.symm
          exact absurd hsame hne
        · exact hup.alone r u' hother' hkey
      · rcases runs_become.mp hr with ⟨-, heq⟩ | ⟨-, hother'⟩
        · subst heq
          exact (hp.held x hx).2 q u hne hother
        · exact hup.unheld r p' hother' x hx
      · obtain ⟨hspared, hobject⟩ := hup.written hf
        exact ⟨fun hc => hspared (condemned_become hp.reaps hc), hobject⟩
  · rcases runs_become.mp hq with ⟨-, heq⟩ | ⟨-, hother⟩
    · subst heq
      exact (hp.held x hx).1
    · exact h.held q p' hother x hx
  · rcases runs_become.mp hw with ⟨-, hown⟩ | ⟨-, hother⟩
    · exact hp.fetched hs w x n hown.symm hphase a ha hid
    · exact h.fetched hs q w x n hother hphase a ha hid

/-! ### Objects -/

/-- A write of an object that no upload has. -/
theorem put (h : s.FilesKept strict B) {key : StorageKey} {bytes : List UInt8}
    (hrows : ∀ a ∈ s.db.attachments, a.source = .upload → a.storageKey ≠ key)
    (huploads : ∀ q u, s.Runs q (.upload u) → u.storageKey ≠ key) :
    (s.putObject key bytes).FilesKept strict B := by
  have hget : ∀ k, (s.putObject key bytes).objects.get? k = if key =
      k then some (key, bytes) else s.objects.get? k :=
    fun k => Table.get?_set k
  refine ⟨h.filed, h.keys, h.drawn, h.stored, fun a ha hprotected => ?_, fun q u hu => ?_, h.held,
    fun hs q w x n hw hphase a ha hid => ?_⟩
  · obtain ⟨hspared, hholds⟩ := h.kept a ha hprotected
    refine ⟨hspared, fun hstored => ?_⟩
    by_cases hkey : key = a.storageKey
    · refine ⟨bytes, by rw [hget, if_pos hkey, hkey], fun hsource => ?_⟩
      exact absurd hkey.symm (hrows a ha hsource)
    · obtain ⟨old, hold, hupload⟩ := hholds hstored
      exact ⟨old, by rw [hget, if_neg hkey]; exact hold, hupload⟩
  · have hup := h.uploading q u hu
    refine ⟨hup.drawn, hup.free, hup.alone, hup.unheld, fun hf => ?_⟩
    obtain ⟨hspared, old, hold, hsize⟩ := hup.written hf
    refine ⟨hspared, old, ?_, hsize⟩
    rw [hget, if_neg fun hkey => huploads q u hu hkey.symm]
    exact hold
  · rw [hget]
    split
    · rfl
    · exact h.fetched hs q w x n hw hphase a ha hid

/-- The removal of an object whose key is condemned. -/
theorem remove (h : s.FilesKept strict B) {key : StorageKey} (hkey : s.Condemned key) :
    (s.removeObject key).FilesKept strict B := by
  have hget : ∀ k, ¬s.Condemned k → (s.removeObject key).objects.get? k = s.objects.get? k := by
    intro k hk
    have hne : k ≠ key := by
      rintro rfl
      exact hk hkey
    rw [removeObject, Table.get?_delete]
    cases ho : s.objects.get? k with
    | none => rfl
    | some o =>
        have hok : o.1 = k := Table.key_of_get? ho
        simp [hok, hne]
  refine ⟨h.filed, h.keys, h.drawn, h.stored, fun a ha hprotected => ?_, fun q u hu => ?_, h.held,
    fun hs q w x n hw hphase a ha hid => ?_⟩
  · obtain ⟨hspared, hholds⟩ := h.kept a ha hprotected
    refine ⟨hspared, fun hstored => ?_⟩
    obtain ⟨bytes, hbytes, hupload⟩ := hholds hstored
    exact ⟨bytes, (hget _ hspared).trans hbytes, hupload⟩
  · have hup := h.uploading q u hu
    refine ⟨hup.drawn, hup.free, hup.alone, hup.unheld, fun hf => ?_⟩
    obtain ⟨hspared, bytes, hbytes, hsize⟩ := hup.written hf
    exact ⟨hspared, bytes, (hget _ hspared).trans hbytes, hsize⟩
  · rw [hget _ (h.kept a ha (.inr hs)).1]
    exact h.fetched hs q w x n hw hphase a ha hid

/-! ### Rows and tombstones -/

/-- A key that may be condemned: no row that is protected has it, and no upload request that is
about to create its row. -/
structure Spares (strict : Prop) (s : System Digest) (db' : Database Digest) (key : StorageKey) :
    Prop where
  drawn : key.id < db'.nextId
  rows : ∀ a' ∈ db'.attachments, a'.source = .upload ∨ strict → a'.storageKey ≠ key
  uploads : ∀ pid u, s.Runs pid (.upload u) → u.failed = false → u.storageKey ≠ key

/-- A transaction that keeps the objects of the rows, adds rows without objects, and condemns
keys that may be condemned. -/
theorem rewrite (h : s.FilesKept strict B) {db' : Database Digest} (filed : db'.Filed)
    (keys : db'.StorageKeys) (le : s.db.nextId ≤ db'.nextId)
    (rows : ∀ a' ∈ db'.attachments, (∃ a ∈ s.db.attachments, a.SameObject a' ∧
      (strict → a'.state = .stored → a.state = .stored ∨ (s.objects.get? a.storageKey).isSome)) ∨
        a'.Unfetched s.db)
    (tombstones : ∀ t' ∈ db'.tombstones, (∃ t ∈ s.db.tombstones, t.storageKey = t'.storageKey) ∨
      Spares strict s db' t'.storageKey) :
    ({ s with db := db' } : System Digest).FilesKept strict B := by
  have hcondemned : ∀ key, ({ s with db := db' } : System Digest).Condemned key →
      s.Condemned key ∨ Spares strict s db' key := by
    rintro key (⟨t', ht', rfl⟩ | hreaps)
    · rcases tombstones t' ht' with ⟨t, ht, hkey⟩ | hspares
      · exact .inl (.inl ⟨t, ht, hkey⟩)
      · exact .inr hspares
    · exact .inl (.inr hreaps)
  refine ⟨filed, keys, fun key hkey => ?_, fun a' ha' hsource => ?_, fun a' ha' hprotected =>
    ⟨fun hc => ?_, fun hs => ?_⟩,
    fun pid u hu => ?_, fun pid p hp x hx => ?_, fun hs pid w x n hw hphase a' ha' hid => ?_⟩
  · rcases hcondemned key hkey with hold | hspares
    · exact (h.drawn key hold).trans_le le
    · exact hspares.drawn
  · rcases rows a' ha' with ⟨a, ha, hsame, -⟩ | hnew
    · have hupload : a.source = .upload := hsame.source ▸ hsource
      exact (hsame.upload hupload).1.trans (h.stored a ha hupload)
    · have hinbound := hnew.source
      rw [hsource] at hinbound
      cases hinbound
  · rcases hcondemned _ hc with hold | hspares
    · rcases rows a' ha' with ⟨a, ha, hsame, -⟩ | hnew
      · rw [hsame.source] at hprotected
        rw [hsame.storageKey] at hold
        exact (h.kept a ha hprotected).1 hold
      · exact absurd (h.drawn _ hold) (Nat.not_lt.mpr hnew.storageKey)
    · exact hspares.rows a' ha' hprotected rfl
  · rcases rows a' ha' with ⟨a, ha, hsame, hstrict⟩ | hnew
    · rw [hsame.source] at hprotected
      have hkept := (h.kept a ha hprotected).2
      have hholds : s.Holds B a → s.Holds B a' := by
        rintro ⟨bytes, hbytes, hupload⟩
        refine ⟨bytes, by rw [hsame.storageKey]; exact hbytes, fun hsource => ?_⟩
        have hold : a.source = .upload := hsame.source ▸ hsource
        rw [(hsame.upload hold).2, hsame.storageKey]
        exact hupload hold
      by_cases hsource : a.source = .upload
      · exact hholds (hkept ((hsame.upload hsource).1.symm.trans hs))
      · rcases hstrict (hprotected.resolve_left hsource) hs with hstored | hobject
        · exact hholds (hkept hstored)
        · obtain ⟨o, ho⟩ := Option.isSome_iff_exists.mp hobject
          have hkey : o.1 = a.storageKey := Table.key_of_get? ho
          refine hholds ⟨o.2, ?_, fun hupload => absurd hupload hsource⟩
          rw [ho, ← hkey]
    · have hpending := hnew.state
      rw [hs] at hpending
      cases hpending
  · have hup := h.uploading pid u hu
    refine ⟨hup.drawn.trans_le le, fun a' ha' hkey => ?_, hup.alone, hup.unheld,
      fun hf => ⟨fun hc => ?_, (hup.written hf).2⟩⟩
    · rcases rows a' ha' with ⟨a, ha, hsame, -⟩ | hnew
      · exact hup.free a ha (hsame.storageKey.symm.trans hkey)
      · have hlt := hup.drawn
        rw [← hkey] at hlt
        exact absurd hlt (Nat.not_lt.mpr hnew.storageKey)
    · rcases hcondemned _ hc with hold | hspares
      · exact (hup.written hf).1 hold
      · exact hspares.uploads pid u hu hf rfl
  · have hnames := h.held pid p hp x hx
    refine ⟨⟨hnames.drawn.1.trans_le le, hnames.drawn.2.trans_le le⟩, fun a' ha' => ?_⟩
    rcases rows a' ha' with ⟨a, ha, hsame, -⟩ | hnew
    · rw [hsame.id, hsame.storageKey, hsame.source]
      exact hnames.row a ha
    · have hid : a'.id ≠ x.id := (hnames.drawn.1.trans_le hnew.id).ne'
      have hkey : a'.storageKey ≠ x.storageKey := by
        intro heq
        exact absurd (heq ▸ hnew.storageKey) (Nat.not_le.mpr hnames.drawn.2)
      exact ⟨⟨fun heq => absurd heq hid, fun heq => absurd heq hkey⟩, fun heq => absurd heq hid⟩
  · rcases rows a' ha' with ⟨a, ha, hsame, -⟩ | hnew
    · rw [hsame.storageKey]
      exact h.fetched hs pid w x n hw hphase a ha (hsame.id.symm.trans hid)
    · have hheld : x ∈ (Proc.ingest w : Proc Digest).held := by
        simp [Proc.held, hphase, IngestPhase.attachment]
      exact absurd (hid ▸ (h.held pid _ hw x hheld).drawn.1) (Nat.not_lt.mpr hnew.id)

end System.FilesKept

/-! ### Statements -/

/-- The rows name the objects that they named before. -/
structure ObjectsNamed (db db' : Database Digest) : Prop where
  nextId_le : db.nextId ≤ db'.nextId
  rows : ∀ a' ∈ db'.attachments, (∃ a ∈ db.attachments, a.SameObject a') ∨
    (db.nextId ≤ a'.id ∧ (a'.source = .upload → a'.state = .stored))

theorem EmailAttachment.SameObject.refl (a : EmailAttachment) : a.SameObject a :=
  ⟨rfl, rfl, rfl, fun _ => ⟨rfl, rfl⟩⟩

theorem EmailAttachment.SameObject.trans {a b d : EmailAttachment} (h : a.SameObject b)
    (h' : b.SameObject d) :
    a.SameObject d where
  id := h'.id.trans h.id
  source := h'.source.trans h.source
  storageKey := h'.storageKey.trans h.storageKey
  upload := by
    intro hsource
    obtain ⟨hstate, hsize⟩ := h'.upload (h.source.trans hsource)
    exact ⟨hstate.trans (h.upload hsource).1, hsize.trans (h.upload hsource).2⟩

section
variable {G : Grant Digest} {db db' : Database Digest}

theorem Statement.named (h : Statement G db db') (hf : db.Filed) : ObjectsNamed db db' := by
  refine ⟨h.nextId_le, fun a' ha' => ?_⟩
  rcases h.attachment_origin ha' with ⟨a, ha, hrewritten⟩ | ⟨hid, -, hinserted⟩
  · refine .inl ⟨a, ha, ?_⟩
    cases hrewritten with
    | advance _ _ working frame =>
        refine ⟨by rw [frame], by rw [frame], by rw [frame], fun hsource => ?_⟩
        -- the ingest runtime leaves uploads alone
        rcases working with hinbound | hleased
        · rw [hsource] at hinbound
          cases hinbound
        · rw [hf.upload a ha hsource] at hleased
          cases hleased
    | _ => exact ⟨rfl, rfl, rfl, fun _ => ⟨rfl, rfl⟩⟩
  · refine .inr ⟨hid.ge, fun hsource => ?_⟩
    cases hinserted with
    | attach _ source _ _ _ _ =>
        rw [hsource] at source
        cases source
    | upload _ _ state _ _ => exact state

theorem Performs.named (h : Performs G db db') (hf : db.Filed) : ObjectsNamed db db' := by
  induction h with
  | refl => exact ⟨le_rfl, fun a ha => .inl ⟨a, ha, .refl a⟩⟩
  | tail hbefore hstatement ih =>
      have hlast := hstatement.named (Performs.filed hbefore hf)
      refine ⟨ih.nextId_le.trans hlast.nextId_le, fun a'' ha'' => ?_⟩
      rcases hlast.rows a'' ha'' with ⟨a', ha', hsame⟩ | ⟨hid, hstored⟩
      · rcases ih.rows a' ha' with ⟨a, ha, hsame'⟩ | ⟨hid, hstored⟩
        · exact .inl ⟨a, ha, hsame'.trans hsame⟩
        · refine .inr ⟨hsame.id ▸ hid, fun hsource => ?_⟩
          have hupload : a'.source = .upload := hsame.source ▸ hsource
          exact (hsame.upload hupload).1.trans (hstored hupload)
      · exact .inr ⟨ih.nextId_le.trans hid, hstored⟩

/-- A transaction that rewrites tombstones only. -/
theorem FileFrame.of_tombstones (le : db.nextId ≤ db'.nextId)
    (attachments : db'.attachments = db.attachments)
    (tombstones : ∀ t' ∈ db'.tombstones, ∃ t ∈ db.tombstones, t.storageKey = t'.storageKey) :
    FileFrame db db' := by
  intro hkeys
  refine ⟨⟨fun a ha => ?_, ?_⟩, fun a ha => .inl ⟨a, attachments ▸ ha, .refl a⟩,
    fun t ht => .inl (tombstones t ht)⟩
  · obtain ⟨hid, hkey⟩ := hkeys.drawn a (attachments ▸ ha)
    exact ⟨hid.trans_le le, hkey.trans_le le⟩
  · rw [attachments]
    exact hkeys.injective

end

namespace System.FilesKept

variable {strict : Prop} {B : StorageKey → List UInt8 → Prop} {G : Grant Digest}
    {db' : Database Digest}

/-- A transaction outside the ingest runtime that keeps the frame of the files. -/
theorem frame (h : s.FilesKept strict B) (performs : Performs G s.db db')
    (frame : FileFrame s.db db') :
    ({ s with db := db' } : System Digest).FilesKept strict B := by
  have hstep := frame h.keys
  have hnamed := performs.named h.filed
  refine h.rewrite (performs.filed h.filed) hstep.keys hnamed.nextId_le (fun a' ha' => ?_)
    fun t' ht' => ?_
  · rcases hstep.attachments a' ha' with ⟨a, ha, hfile⟩ | hnew
    · refine .inl ⟨a, ha, ?_, fun _ hs => .inl (hfile.state.symm.trans hs)⟩
      rcases hnamed.rows a' ha' with ⟨b, hb, hsame⟩ | ⟨hid, -⟩
      · obtain rfl := Table.key_inj ha hb (hfile.id.symm.trans hsame.id)
        exact hsame
      · have hlt := (h.keys.drawn a ha).1
        rw [← hfile.id] at hlt
        exact absurd hlt (Nat.not_lt.mpr hid)
    · refine .inr ⟨hnew.id, hnew.storageKey, ?_, hnew.state⟩
      rcases hnamed.rows a' ha' with ⟨b, hb, hsame⟩ | ⟨-, hstored⟩
      · have hlt := (h.keys.drawn b hb).1
        rw [← hsame.id] at hlt
        exact absurd hlt (Nat.not_lt.mpr hnew.id)
      · cases hsource : a'.source with
        | inbound => rfl
        | upload =>
            have hpending := hnew.state
            rw [hstored hsource] at hpending
            cases hpending
  · rcases hstep.tombstones t' ht' with hold | hreleased
    · exact .inl hold
    · refine .inr ⟨?_, fun a' ha' _ => hreleased.gone a' ha', fun pid u hu _ hkey => ?_⟩
      · rcases hreleased.origin with ⟨a, ha, hkey⟩ | ⟨-, hlt⟩
        · rw [← hkey]
          exact (h.keys.drawn a ha).2.trans_le hnamed.nextId_le
        · exact hlt
      · have hup := h.uploading pid u hu
        rcases hreleased.origin with ⟨a, ha, hkey'⟩ | ⟨hle, -⟩
        · exact hup.free a ha (hkey'.trans hkey.symm)
        · have hlt := hup.drawn
          rw [hkey] at hlt
          exact absurd hlt (Nat.not_lt.mpr hle)

/-- A transaction of the ingest runtime on the rows. -/
theorem ingest (h : s.FilesKept strict B) (performs : Performs G s.db db')
    (tombstones : db'.tombstones = s.db.tombstones)
    (rows : ∀ a' ∈ db'.attachments, ∃ a ∈ s.db.attachments, a'.id = a.id ∧
      (strict → a'.state = .stored → a.state = .stored ∨ (s.objects.get? a.storageKey).isSome)) :
    ({ s with db := db' } : System Digest).FilesKept strict B := by
  have hnamed := performs.named h.filed
  have hrows : ∀ a' ∈ db'.attachments, ∃ a ∈ s.db.attachments, a.SameObject a' ∧
      (strict → a'.state = .stored → a.state = .stored ∨ (s.objects.get? a.storageKey).isSome) := by
    intro a' ha'
    obtain ⟨a, ha, hid, hstored⟩ := rows a' ha'
    rcases hnamed.rows a' ha' with ⟨b, hb, hsame⟩ | ⟨hle, -⟩
    · obtain rfl := Table.key_inj ha hb (hid.symm.trans hsame.id)
      exact ⟨a, ha, hsame, hstored⟩
    · have hlt := (h.keys.drawn a ha).1
      rw [← hid] at hlt
      exact absurd hlt (Nat.not_lt.mpr hle)
  refine h.rewrite (performs.filed h.filed) ⟨fun a' ha' => ?_, fun a' ha' b' hb' hkey => ?_⟩
    hnamed.nextId_le
    (fun a' ha' => .inl (hrows a' ha')) fun t' ht' => .inl ⟨t', tombstones ▸ ht', rfl⟩
  · obtain ⟨a, ha, hsame, -⟩ := hrows a' ha'
    rw [hsame.id, hsame.storageKey]
    obtain ⟨hid, hkey⟩ := h.keys.drawn a ha
    exact ⟨hid.trans_le hnamed.nextId_le, hkey.trans_le hnamed.nextId_le⟩
  · obtain ⟨a, ha, hsame, -⟩ := hrows a' ha'
    obtain ⟨b, hb, hsame', -⟩ := hrows b' hb'
    have hab : a = b :=
      h.keys.injective a ha b hb (by rw [← hsame.storageKey, ← hsame'.storageKey, hkey])
    exact Table.key_inj ha' hb' (by rw [hsame.id, hsame'.id, hab])

end System.FilesKept

/-! ### Steps that leave the files alone -/

/-- The step leaves the files and the processes at work on them alone. -/
structure FilesApart (s s' : System Digest) : Prop where
  frame : FileFrame s.db s'.db
  objects : s'.objects = s.objects
  retires : ∀ pid p, s'.Runs pid p → p.files = true → s.Runs pid p

theorem FilesApart.become {t : System Digest} {p : Proc Digest} (frame : FileFrame s.db t.db)
    (objects : t.objects = s.objects) (procs : t.procs = s.procs) (hp : p.files = false) :
    FilesApart s (t.become pid p) := by
  refine ⟨frame, objects, fun q p' hq hfiles => ?_⟩
  rcases runs_become.mp hq with ⟨-, rfl⟩ | ⟨-, hother⟩
  · rw [hp] at hfiles
    cases hfiles
  · rwa [Runs, procs] at hother

theorem Effect.files_apart [DecidableEq Digest] {a : Action Digest} (he : Effect rt s a s')
    (ha : ¬s.Files a) :
    FilesApart s s' := by
  have hsame : ∀ n, s.db.nextId ≤ n → FileFrame s.db { s.db with nextId := n } := fun n hn =>
    .of_eq hn rfl rfl
  have hrefl : FileFrame s.db s.db := .of_eq le_rfl rfl rfl
  cases he with
  | quiet passive provider leases objects now retires =>
      exact ⟨passive.files, objects, fun pid p hp hfiles => retires pid p hp (.inr hfiles)⟩
  | filed background provider leases now retires action => exact absurd action ha
  | reached callId accepted answer provider action reach eq =>
      subst eq
      exact ⟨hrefl, rfl, fun _ _ hp _ => hp⟩
  | deleted c db' action deletion eq =>
      subst eq
      exact ⟨deletion.files, rfl, fun _ _ hp _ => hp⟩
  | stored pid c handler reopened db' id p action runs reopens stores next eq =>
      subst eq
      obtain ⟨⟨v, hs⟩, -⟩ := stores
      refine .become hs.files rfl rfl ?_
      split at next
      · exact next.2
      · rw [next]
        rfl
  | engaged pid c handler m action runs found hash sync eq =>
      subst eq
      exact .become hrefl rfl rfl rfl
  | reopening pid c handler conversation action runs found topic eq =>
      subst eq
      exact .become hrefl rfl rfl rfl
  | expiring pid c handler id action runs phase eq =>
      subst eq
      exact .become hrefl rfl rfl rfl
  | resumed pid c handler m action runs phase found window eq =>
      subst eq
      exact .become hrefl rfl rfl rfl
  | prepared pid c handler d attachments action runs phase eq =>
      subst eq
      exact .become hrefl rfl rfl rfl
  | expired pid c handler id db' p action runs phase rewrite next eq =>
      subst eq
      exact .become rewrite.files rfl rfl next.2
  | called pid c handler d attachments m action runs phase free found pending eq =>
      subst eq
      exact .become (hsame _ (Nat.le_succ _)) rfl rfl rfl
  | refused pid c handler d attachments m error db' p action runs phase free found pending cause
      rewrite next eq =>
      subst eq
      exact .become rewrite.files rfl rfl next.2
  | settled pid c handler d m callId observation db' p action runs phase waits observed
      rewrite next eq =>
      subst eq
      rcases rewrite with rfl | rewrite
      · exact .become hrefl rfl rfl next.2
      · exact .become rewrite.files rfl rfl next.2
  | batchSwept pid p next eq =>
      subst eq
      exact .become (.of_eq (Nat.le_succ _) rfl rfl) rfl rfl next.2
  | batchClaimed pid c loaded db' p claim free next eq =>
      subst eq
      have hframe : FileFrame s.db db' := by
        cases claim with
        | leased found ready db_eq loaded =>
            subst db_eq
            exact .of_eq (Nat.le_succ _) rfl rfl
        | created hids hne table db_eq loaded =>
            subst db_eq
            exact .of_eq (by simp) rfl rfl
      refine .become hframe rfl rfl ?_
      rw [next]
      split <;> rfl
  | batchSkipped pid c batch claimedAt decision action runs decided eq =>
      subst eq
      exact .become hrefl rfl rfl rfl
  | batchCalled pid c batch claimedAt action runs window eq =>
      subst eq
      exact .become (hsame _ (Nat.le_succ _)) rfl rfl rfl
  | batchObserved pid c batch callId observation action runs observed eq =>
      subst eq
      exact .become hrefl rfl rfl rfl
  | batchFinalized pid c batch decision db' p action runs finalized next eq =>
      subst eq
      exact .become finalized.files rfl rfl next.2
  | batchRescheduled pid c batch decision db' p action runs rescheduled next eq =>
      subst eq
      obtain ⟨now, errorCode, rfl⟩ := rescheduled.db_eq
      exact .become (.of_eq le_rfl rfl rfl) rfl rfl next.2
  | entrySwept pid p next eq =>
      subst eq
      exact .become (.of_eq (Nat.le_succ _) rfl rfl) rfl rfl next.2
  | entryClaimed pid c remaining result entry e db' action runs claim eq =>
      subst eq
      have hframe : FileFrame s.db db' := by
        rw [claim.db_eq]
        exact .of_eq (Nat.le_succ _) rfl rfl
      exact .become hframe rfl rfl rfl
  | entrySkipped pid c remaining result entry claimedAt decision action runs decided eq =>
      subst eq
      exact .become hrefl rfl rfl rfl
  | entryCalled pid c remaining result entry claimedAt attachments action runs window eq =>
      subst eq
      exact .become (hsame _ (Nat.le_succ _)) rfl rfl rfl
  | entryObserved pid c remaining result entry callId observation action runs observed eq =>
      subst eq
      exact .become hrefl rfl rfl rfl
  | entryFinalized pid c remaining result entry decision db' p action runs finalized next eq =>
      subst eq
      exact .become finalized.files rfl rfl next.2
  | entryRescheduled pid c remaining result entry decision db' p action runs rescheduled next eq =>
      subst eq
      obtain ⟨now, errorCode, rfl⟩ := rescheduled.db_eq
      exact .become (.of_eq le_rfl rfl rfl) rfl rfl next.2
  | entryRedecided pid c remaining result entry decision name message action runs eq =>
      subst eq
      exact .become hrefl rfl rfl rfl

end ResendConversation
