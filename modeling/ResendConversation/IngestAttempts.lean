import Mathlib.Data.List.Nodup
import Mathlib.Data.List.Perm.Subperm
import ResendConversation.IngestMoves
import ResendConversation.ReplyForest

/-! # Ingest attempts

`claimPendingAttachments` counts an attempt when it claims a row, and `failAttachment` fails the
row when the last attempt is reported.  An attempt that ends without a report is counted but
not judged: its row stays pending under a lease that runs out, and the next cycle claims it
again, whatever its count.  In runs where no last attempt goes unreported, each attachment is
claimed and fetched at most `ingestMaxAttempts` times, and after that many attempts without
success it is failed. -/

namespace ResendConversation

open Foundation

variable {Digest : Type} {rt : Runtime Digest} {s s' : System Digest} {pid : ℕ} {c : Choice Digest}

/-! ### Histories -/

def IngestEvent.claim? : IngestEvent → Option ClaimedAttachment
  | .claimed x => some x
  | _ => none

def IngestEvent.fetch? : IngestEvent → Option ClaimedAttachment
  | .fetched x => some x
  | _ => none

def IngestEvent.miss? : IngestEvent → Option ClaimedAttachment
  | .missed x => some x
  | _ => none

/-- The attempts that began. -/
def claims (log : List IngestEvent) : List ClaimedAttachment := log.filterMap IngestEvent.claim?

/-- The attempts that fetched their attachment. -/
def fetches (log : List IngestEvent) : List ClaimedAttachment := log.filterMap IngestEvent.fetch?

/-- The attempts that ended without success. -/
def misses (log : List IngestEvent) : List ClaimedAttachment := log.filterMap IngestEvent.miss?

/-- The attempts at one attachment. -/
def attemptsAt (id : Uuid) (xs : List ClaimedAttachment) : List ClaimedAttachment :=
  xs.filter fun x => x.id == id

/-- The system with the history of its ingest runtime. -/
structure IngestHistory (Digest : Type) where
  system : System Digest
  log : List IngestEvent

def IngestHistory.initial (config : Config) (now : Time) : IngestHistory Digest :=
  ⟨.initial config now, []⟩

def IngestHistory.step [DecidableEq Digest] (rt : Runtime Digest) (r : IngestHistory Digest)
    (a : Action Digest) :
    Option (IngestHistory Digest) :=
  (ResendConversation.step rt r.system a).map fun s' => ⟨s', r.log ++ ingestEvents r.system s' a⟩

/-- What the bound on the attempts promises. -/
structure IngestBounded (r : IngestHistory Digest) : Prop where
  fetched : ∀ id, (attemptsAt id (fetches r.log)).length ≤ ingestMaxAttempts
  claimed : ∀ id, (attemptsAt id (claims r.log)).length ≤ ingestMaxAttempts
  /-- No attachment is claimed after its last attempt ended without success. -/
  rested : ∀ before x after, r.log = before ++ .claimed x :: after →
    (attemptsAt x.id (misses before)).length < ingestMaxAttempts
  failed : ∀ a ∈ r.system.db.attachments, ingestMaxAttempts ≤
    (attemptsAt a.id (misses r.log)).length → a.state = .failed

/-- The step claims a row whose last attempt went unreported, or crashes a worker before it
reports a last attempt. -/
def System.neglects (s : System Digest) : Action Digest → Bool
  | .start _ .ingest c => (ingestBatch s.db (s.clock c.readAt) c.locked).any fun a =>
      a.leaseUntil.isSome && decide (ingestMaxAttempts ≤ a.attemptCount)
  | .crash pid => (s.heldBy pid).any fun x =>
      (s.db.attachments.get? x.id).isSome && decide (ingestMaxAttempts ≤ x.attemptCount)
  | _ => false

/-- The last attempts at an attachment are reported. -/
def Reported (r : IngestHistory Digest) (a : Action Digest) : Prop := r.system.neglects a = false

instance (r : IngestHistory Digest) (a : Action Digest) : Decidable (Reported r a) :=
  inferInstanceAs (Decidable (r.system.neglects a = false))

section
variable {log log' : List IngestEvent} {xs : List ClaimedAttachment} {x y : ClaimedAttachment}
  {id : Uuid}

@[simp] theorem claims_append : claims (log ++ log') = claims log ++ claims log' :=
  List.filterMap_append

@[simp] theorem fetches_append : fetches (log ++ log') = fetches log ++ fetches log' :=
  List.filterMap_append

@[simp] theorem misses_append : misses (log ++ log') = misses log ++ misses log' :=
  List.filterMap_append

@[simp] theorem claims_claimed : claims (xs.map .claimed) = xs := by
  induction xs with
  | nil => simp [claims]
  | cons x xs ih => simpa [claims, IngestEvent.claim?] using ih

@[simp] theorem misses_missed : misses (xs.map .missed) = xs := by
  induction xs with
  | nil => simp [misses]
  | cons x xs ih => simpa [misses, IngestEvent.miss?] using ih

@[simp] theorem fetches_claimed : fetches (xs.map .claimed) = [] := by
  simp [fetches, IngestEvent.fetch?]

@[simp] theorem misses_claimed : misses (xs.map .claimed) = [] := by
  simp [misses, IngestEvent.miss?]

@[simp] theorem claims_missed : claims (xs.map .missed) = [] := by
  simp [claims, IngestEvent.claim?]

@[simp] theorem fetches_missed : fetches (xs.map .missed) = [] := by
  simp [fetches, IngestEvent.fetch?]

@[simp] theorem claims_fetched : claims [.fetched x] = [] := by simp [claims, IngestEvent.claim?]

@[simp] theorem misses_fetched : misses [.fetched x] = [] := by simp [misses, IngestEvent.miss?]

@[simp] theorem fetches_fetched : fetches [.fetched x] =
    [x] := by simp [fetches, IngestEvent.fetch?]

theorem mem_attemptsAt : x ∈ attemptsAt id xs ↔ x ∈ xs ∧ x.id = id := by simp [attemptsAt]

theorem attemptsAt_append (ys : List ClaimedAttachment) :
    attemptsAt id (xs ++ ys) = attemptsAt id xs ++ attemptsAt id ys := List.filter_append ..

theorem attemptsAt_eq_nil (h : ∀ x ∈ xs, x.id ≠ id) : attemptsAt id xs = [] := by
  refine List.filter_eq_nil_iff.mpr fun x hx => ?_
  simpa using h x hx

/-- A claim takes an attachment once. -/
theorem attemptsAt_of_mem (hdistinct : (xs.map ClaimedAttachment.id).Nodup) (hx : x ∈ xs) :
    attemptsAt x.id xs = [x] := by
  induction xs with
  | nil => cases hx
  | cons y ys ih =>
      rw [List.map_cons, List.nodup_cons] at hdistinct
      have hsplit : attemptsAt x.id ([y] ++ ys) = attemptsAt x.id [y] ++ attemptsAt x.id ys :=
        attemptsAt_append ys
      rw [List.singleton_append] at hsplit
      rw [hsplit]
      rcases List.mem_cons.mp hx with rfl | hx
      · have hrest : attemptsAt x.id ys = [] :=
          attemptsAt_eq_nil fun z hz h => hdistinct.1 (List.mem_map.mpr ⟨z, hz, h⟩)
        rw [hrest]
        simp [attemptsAt]
      · have hne : y.id ≠ x.id := fun h => hdistinct.1 (List.mem_map.mpr ⟨x, hx, h.symm⟩)
        have hfirst : attemptsAt x.id [y] = [] := attemptsAt_eq_nil fun z hz => by
          rw [List.mem_singleton.mp hz]
          exact hne
        rw [hfirst, ih hdistinct.2 hx, List.nil_append]

/-- Attempts of one kind are no more than attempts of the other that include them. -/
theorem attemptsAt_length_le {ys : List ClaimedAttachment} (hxs : xs.Nodup) (h : ∀ x ∈ xs, x ∈ ys)
    (id : Uuid) :
    (attemptsAt id xs).length ≤ (attemptsAt id ys).length := by
  have hsub : attemptsAt id xs ⊆ attemptsAt id ys := by
    intro x hx
    obtain ⟨hx, hid⟩ := mem_attemptsAt.mp hx
    exact mem_attemptsAt.mpr ⟨h x hx, hid⟩
  exact ((hxs.filter _).subperm hsub).length_le

end

/-! ### The invariant -/

/-- The history, the rows and the held attachments agree. -/
structure IngestHistory.Counted (r : IngestHistory Digest) : Prop where
  filed : r.system.db.Filed
  drawn : ∀ x ∈ claims r.log, x.id < r.system.db.nextId ∧ x.leaseToken < r.system.db.nextId
  /-- The attempts at an attachment are counted from one. -/
  numbered : ∀ id, ∃ n ≤ ingestMaxAttempts,
    (attemptsAt id (claims r.log)).map ClaimedAttachment.attemptCount = List.range' 1 n
  tokens : ∀ x ∈ claims r.log, ∀ y ∈ claims r.log, x.id = y.id → x.leaseToken = y.leaseToken → x = y
  fetched : (fetches r.log).Nodup ∧ ∀ x ∈ fetches r.log, x ∈ claims r.log
  missed : (misses r.log).Nodup ∧ ∀ x ∈ misses r.log, x ∈ claims r.log
  rested : ∀ before x after, r.log = before ++ .claimed x :: after →
    (attemptsAt x.id (misses before)).length < ingestMaxAttempts
  inbound : ∀ x ∈ claims r.log, ∀ a ∈ r.system.db.attachments, a.id = x.id → a.source = .inbound
  counted : ∀ a ∈ r.system.db.attachments, a.source = .inbound →
    (attemptsAt a.id (claims r.log)).length = a.attemptCount
  /-- A pending row without a lease has attempts left. -/
  idle : ∀ a ∈ r.system.db.attachments, a.source = .inbound → a.state = .pending →
    a.leaseUntil = none → a.attemptCount < ingestMaxAttempts
  /-- A leased row is pending, and its lease is that of its last attempt. -/
  leased : ∀ a ∈ r.system.db.attachments, a.source = .inbound → ∀ t, a.leaseToken = some t →
    a.state = .pending ∧ ∃ x ∈ claims r.log, x.id = a.id ∧ x.leaseToken = t ∧
      x.attemptCount = a.attemptCount
  last : ∀ a ∈ r.system.db.attachments, ∀ x ∈ misses r.log, a.id = x.id →
    ingestMaxAttempts ≤ x.attemptCount → a.state = .failed
  held : ∀ q, ∀ x ∈ r.system.heldBy q, x ∈ claims r.log ∧ x ∉ misses r.log
  unfetched : ∀ q, ∀ x ∈ r.system.unfetchedBy q, x ∈ r.system.heldBy q ∧ x ∉ fetches r.log
  distinct : ∀ q, (r.system.heldBy q).Nodup
  alone : ∀ p q, ∀ x ∈ r.system.heldBy p, x ∈ r.system.heldBy q → p = q
  /-- The last attempt at a row holds its lease until it ends. -/
  current : ∀ q, ∀ x ∈ r.system.heldBy q, ∀ a ∈ r.system.db.attachments, a.id = x.id →
    x.attemptCount = a.attemptCount → a.leaseToken = some x.leaseToken

namespace IngestHistory.Counted

variable {log : List IngestEvent} {x y : ClaimedAttachment} {a : EmailAttachment}

theorem attempt_le (h : Counted ⟨s, log⟩) (hx : x ∈ claims log) :
    x.attemptCount ≤ (attemptsAt x.id (claims log)).length ∧
      (attemptsAt x.id (claims log)).length ≤ ingestMaxAttempts := by
  obtain ⟨n, hn, hmap⟩ := h.numbered x.id
  have hlength := congrArg List.length hmap
  rw [List.length_map, List.length_range'] at hlength
  have hmem : x.attemptCount ∈ List.range' 1 n := by
    rw [← hmap]
    exact List.mem_map.mpr ⟨x, mem_attemptsAt.mpr ⟨hx, rfl⟩, rfl⟩
  rw [List.mem_range'_1] at hmem
  dsimp only at hlength
  omega

/-- No attempt at a row comes after the last one that the row counts. -/
theorem le_attemptCount (h : Counted ⟨s, log⟩) (hx : x ∈ claims log) (ha : a ∈ s.db.attachments)
    (hid : a.id = x.id) :
    x.attemptCount ≤ a.attemptCount ∧ a.attemptCount ≤ ingestMaxAttempts := by
  have hle := h.attempt_le hx
  rw [← hid, h.counted a ha (h.inbound x hx a ha hid)] at hle
  exact hle

theorem missed_le (h : Counted ⟨s, log⟩) (id : Uuid) :
    (attemptsAt id (misses log)).length ≤ (attemptsAt id (claims log)).length :=
  attemptsAt_length_le h.missed.1 h.missed.2 id

/-- The holder of the lease of a row made the last attempt at it. -/
theorem attemptCount_eq (h : Counted ⟨s, log⟩) (hx : x ∈ claims log) (ha : a ∈ s.db.attachments)
    (hown : x.owns a = true) : a.state = .pending ∧ x.attemptCount = a.attemptCount := by
  simp only [ClaimedAttachment.owns, Bool.and_eq_true, beq_iff_eq] at hown
  obtain ⟨hid, htoken⟩ := hown
  obtain ⟨hstate, z, hz, hzid, hztoken, hcount⟩ := h.leased a ha (h.inbound x hx a ha hid) _ htoken
  obtain rfl := h.tokens z hz x hx (hzid.trans hid) hztoken
  exact ⟨hstate, hcount⟩

theorem initial (config : Config) (now : Time) :
    Counted (IngestHistory.initial config now : IngestHistory Digest) where
  filed := by constructor <;> intro x hx <;> cases hx
  drawn := by simp [IngestHistory.initial, claims]
  numbered := fun id => ⟨0, Nat.zero_le _, by simp [IngestHistory.initial, claims, attemptsAt]⟩
  tokens := by simp [IngestHistory.initial, claims]
  fetched := by simp [IngestHistory.initial, fetches]
  missed := by simp [IngestHistory.initial, misses]
  rested := by simp [IngestHistory.initial]
  inbound := by simp [IngestHistory.initial, claims]
  counted := by
    intro a ha
    cases ha
  idle := by
    intro a ha
    cases ha
  leased := by
    intro a ha
    cases ha
  last := by
    intro a ha
    cases ha
  held := by
    intro q x hx
    cases hx
  unfetched := by
    intro q x hx
    cases hx
  distinct := fun q => List.nodup_nil
  alone := by
    intro p q x hx
    cases hx
  current := by
    intro q x hx
    cases hx

/-! ### Steps -/

/-- No row is written and nothing is claimed, fetched or missed. -/
theorem quiet (h : Counted ⟨s, log⟩) (hfiled : s'.db.Filed) (rows : Undisturbed s.db s'.db)
    (held : ∀ q, s'.heldBy q = s.heldBy q) (unfetched : ∀ q, s'.unfetchedBy q = s.unfetchedBy q) :
    Counted ⟨s', log⟩ := by
  -- no attempt is one at a new row
  have hnew : ∀ a' : EmailAttachment, s.db.nextId ≤ a'.id → ∀ x ∈ claims log, a'.id ≠ x.id := by
    intro a' hid x hx heq
    have hlt : x.id < s.db.nextId := (h.drawn x hx).1
    exact absurd hlt (Nat.not_lt.mpr (heq ▸ hid))
  exact {
    filed := hfiled
    drawn := fun x hx =>
      ⟨(h.drawn x hx).1.trans_le rows.nextId, (h.drawn x hx).2.trans_le rows.nextId⟩
    numbered := h.numbered
    tokens := h.tokens
    fetched := h.fetched
    missed := h.missed
    rested := h.rested
    inbound := by
      intro x hx a' ha' hid
      rcases rows.origin a' ha' with ⟨a, ha, hkept⟩ | ⟨hle, -⟩
      · exact hkept.source.trans (h.inbound x hx a ha (hkept.id.symm.trans hid))
      · exact absurd hid (hnew a' hle x hx)
    counted := by
      intro a' ha' hsource
      rcases rows.origin a' ha' with ⟨a, ha, hkept⟩ | ⟨hle, hfresh⟩
      · rw [hkept.id, hkept.attemptCount]
        exact h.counted a ha (hkept.source ▸ hsource)
      · rw [hfresh.attemptCount hsource, attemptsAt_eq_nil fun x hx heq =>
          hnew a' hle x hx heq.symm]
        rfl
    idle := by
      intro a' ha' hsource hstate huntil
      rcases rows.origin a' ha' with ⟨a, ha, hkept⟩ | ⟨-, hfresh⟩
      · rw [hkept.attemptCount]
        exact h.idle a ha (hkept.source ▸ hsource) (hkept.state ▸ hstate)
          (hkept.leaseUntil ▸ huntil)
      · rw [hfresh.attemptCount hsource]
        decide
    leased := by
      intro a' ha' hsource t ht
      rcases rows.origin a' ha' with ⟨a, ha, hkept⟩ | ⟨-, hfresh⟩
      · obtain ⟨hstate, x, hx, hid, htoken, hcount⟩ :=
          h.leased a ha (hkept.source ▸ hsource) t (hkept.leaseToken ▸ ht)
        exact ⟨hkept.state.trans hstate, x, hx, hid.trans hkept.id.symm, htoken,
          hcount.trans hkept.attemptCount.symm⟩
      · rw [hfresh.leaseToken] at ht
        cases ht
    last := by
      intro a' ha' x hx hid hmax
      rcases rows.origin a' ha' with ⟨a, ha, hkept⟩ | ⟨hle, -⟩
      · exact hkept.state.trans (h.last a ha x hx (hkept.id.symm.trans hid) hmax)
      · exact absurd hid (hnew a' hle x (h.missed.2 x hx))
    held := fun q x hx => h.held q x (held q ▸ hx)
    unfetched := by
      intro q x hx
      obtain ⟨hheld, hnot⟩ := h.unfetched q x (unfetched q ▸ hx)
      exact ⟨by rw [held q]; exact hheld, hnot⟩
    distinct := fun q => by rw [held q]; exact h.distinct q
    alone := fun p q x hp hq => h.alone p q x (held p ▸ hp) (held q ▸ hq)
    current := by
      intro q x hx a' ha' hid hcount
      have hx : x ∈ s.heldBy q := held q ▸ hx
      rcases rows.origin a' ha' with ⟨a, ha, hkept⟩ | ⟨hle, -⟩
      · rw [hkept.leaseToken]
        exact h.current q x hx a ha (hkept.id.symm.trans hid) (hcount.trans hkept.attemptCount)
      · exact absurd hid (hnew a' hle x (h.held q x hx).1) }

section
variable {now : Time} {locked : List Uuid} {xs : List ClaimedAttachment} (h : Counted ⟨s, log⟩)
  (claim : IngestClaim now locked s.db s'.db xs)
  (hspared : ∀ a ∈ ingestBatch s.db now locked, a.leaseUntil.isSome →
    a.attemptCount < ingestMaxAttempts)

include h claim hspared

/-- The row of a new attempt, which was not its last. -/
theorem claim_row (hx : x ∈ xs) :
    ∃ a ∈ s.db.attachments, a.id = x.id ∧ a.source = .inbound ∧ a.state = .pending ∧
      x.attemptCount = a.attemptCount + 1 ∧ a.attemptCount < ingestMaxAttempts ∧
        x.leaseToken = s.db.nextId := by
  obtain ⟨htoken, a, ha, hid, hcount⟩ := claim.claimed x hx
  obtain ⟨hmem, hready⟩ := mem_ingestBatch ha
  simp only [EmailAttachment.ready, Bool.and_eq_true, beq_iff_eq] at hready
  have hstate := hready.1.1.1.1.1
  have hsource := hready.1.1.1.1.2
  refine ⟨a, hmem, hid, hsource, hstate, hcount, ?_, htoken⟩
  cases huntil : a.leaseUntil with
  | none => exact h.idle a hmem hsource hstate huntil
  | some t => exact hspared a ha (by simp [huntil])

/-- The attempts of a claim are numbered on from those before it. -/
theorem claim_numbered (id : Uuid) :
    ∃ n ≤ ingestMaxAttempts,
      (attemptsAt id (claims (log ++ xs.map .claimed))).map ClaimedAttachment.attemptCount =
        List.range' 1 n := by
  obtain ⟨n, hn, hmap⟩ := h.numbered id
  simp only [claims_append, claims_claimed, attemptsAt_append, List.map_append]
  by_cases hid : ∃ x ∈ xs, x.id = id
  · obtain ⟨x, hx, rfl⟩ := hid
    obtain ⟨a, ha, hid, hsource, -, hcount, hless, -⟩ := h.claim_row claim hspared hx
    have hlength := congrArg List.length hmap
    rw [List.length_map, List.length_range', ← hid, h.counted a ha hsource] at hlength
    refine ⟨n + 1, by omega, ?_⟩
    dsimp only at hmap
    rw [hmap, attemptsAt_of_mem claim.distinct hx, List.range'_1_concat, List.map_singleton, hcount]
    congr 2
    omega
  · refine ⟨n, hn, ?_⟩
    dsimp only at hmap
    rw [hmap, attemptsAt_eq_nil fun x hx heq => hid ⟨x, hx, heq⟩]
    simp

/-- An attempt is determined by its attachment and its token, which is new to a claim. -/
theorem claim_tokens :
    ∀ x ∈ claims (log ++ xs.map .claimed), ∀ y ∈ claims (log ++ xs.map .claimed),
      x.id = y.id → x.leaseToken = y.leaseToken → x = y := by
  intro x hx y hy hid htoken
  simp only [claims_append, claims_claimed, List.mem_append] at hx hy
  rcases hx with hx | hx
  · rcases hy with hy | hy
    · exact h.tokens x hx y hy hid htoken
    · obtain ⟨-, -, -, -, -, -, -, hy'⟩ := h.claim_row claim hspared hy
      exact absurd (htoken.trans hy') (h.drawn x hx).2.ne
  · rcases hy with hy | hy
    · obtain ⟨-, -, -, -, -, -, -, hx'⟩ := h.claim_row claim hspared hx
      exact absurd (htoken.symm.trans hx') (h.drawn y hy).2.ne
    · exact List.inj_on_of_nodup_map claim.distinct hx hy hid

/-- The row of a claimed attachment has attempts left, and counts those that ended without
success. -/
theorem claim_missed (hx : x ∈ xs) : (attemptsAt x.id (misses log)).length < ingestMaxAttempts := by
  obtain ⟨a, ha, hid, hsource, -, -, hless, -⟩ := h.claim_row claim hspared hx
  have hle := h.missed_le a.id
  rw [h.counted a ha hsource] at hle
  rw [← hid]
  omega

/-- A claim takes no attachment whose last attempt ended without success. -/
theorem claim_rested :
    ∀ before x after, log ++ xs.map .claimed = before ++ .claimed x :: after →
      (attemptsAt x.id (misses before)).length < ingestMaxAttempts := by
  intro before x after heq
  rcases List.append_eq_append_iff.mp heq with ⟨mid, hbefore, hmid⟩ | ⟨mid, hlog, hmid⟩
  · -- an attempt of this claim
    have hclaims := congrArg claims hmid
    have hmisses := congrArg misses hmid
    simp only [claims_claimed, misses_claimed, claims_append, misses_append] at hclaims hmisses
    have hx : x ∈ xs := by
      rw [hclaims]
      simp [claims, IngestEvent.claim?]
    have hnone : misses mid = [] := (List.append_eq_nil_iff.mp hmisses.symm).1
    rw [hbefore, misses_append, hnone, List.append_nil]
    exact h.claim_missed claim hspared hx
  · cases mid with
    | nil =>
        -- the first attempt of this claim
        rw [List.nil_append] at hmid
        rw [List.append_nil] at hlog
        have hclaims := congrArg claims hmid
        rw [claims_claimed] at hclaims
        have hx : x ∈ xs := by
          rw [← hclaims]
          simp [claims, IngestEvent.claim?]
        rw [← hlog]
        exact h.claim_missed claim hspared hx
    | cons e mid =>
        obtain ⟨rfl, rfl⟩ := List.cons.inj hmid
        exact h.rested before x mid hlog

/-- A leased row is pending after a claim, under the lease of its last attempt. -/
theorem claim_leased : ∀ a' ∈ s'.db.attachments, a'.source = .inbound →
    ∀ t, a'.leaseToken = some t → a'.state = .pending ∧ ∃ x ∈ claims (log ++ xs.map .claimed),
      x.id = a'.id ∧ x.leaseToken = t ∧ x.attemptCount = a'.attemptCount := by
  intro a' ha' hsource t ht
  simp only [claims_append, claims_claimed, List.mem_append]
  obtain ⟨a, ha, ⟨rfl, -⟩ | ⟨hleased, x, hx, hid⟩⟩ := claim.rows a' ha'
  · obtain ⟨hstate, x, hx, hmatch⟩ := h.leased a' ha hsource t ht
    exact ⟨hstate, x, .inl hx, hmatch⟩
  · obtain ⟨b, hb, hbid, -, hstate, hcount, -, htoken⟩ := h.claim_row claim hspared hx
    obtain rfl := Table.key_inj hb ha (hbid.trans hid)
    rw [hleased.leaseToken] at ht
    refine ⟨hleased.state.trans hstate, x, .inr hx, hid.trans hleased.id.symm, ?_, ?_⟩
    · exact htoken.trans (Option.some.inj ht)
    · exact hcount.trans hleased.attemptCount.symm

/-- What is held after a claim holds the lease of its row, if it is the last attempt. -/
theorem claim_current (held : ∀ q, s'.heldBy q = if q = pid then xs else s.heldBy q) :
    ∀ q, ∀ x ∈ s'.heldBy q, ∀ a' ∈ s'.db.attachments, a'.id = x.id →
      x.attemptCount = a'.attemptCount → a'.leaseToken = some x.leaseToken := by
  intro q x hx a' ha' hid hcount
  rw [held q] at hx
  obtain ⟨a, ha, ⟨rfl, hnone⟩ | ⟨hleased, y, hy, hyid⟩⟩ := claim.rows a' ha'
  · split at hx
    · exact absurd hid.symm (hnone x hx)
    · exact h.current q x hx a' ha hid hcount
  · split at hx
    · obtain ⟨-, -, -, -, -, -, -, htoken⟩ := h.claim_row claim hspared hx
      rw [hleased.leaseToken, htoken]
    · have hle := (h.le_attemptCount (h.held q x hx).1 ha (hleased.id.symm.trans hid)).1
      have hnext := hleased.attemptCount
      omega

/-- A worker claims attachments. -/
theorem claimed (hfiled : s'.db.Filed)
    (held : ∀ q, s'.heldBy q = if q = pid then xs else s.heldBy q)
    (unfetched : ∀ q, s'.unfetchedBy q = if q = pid then xs else s.unfetchedBy q) :
    Counted ⟨s', log ++ xs.map .claimed⟩ := by
  have hrow := fun x (hx : x ∈ xs) => h.claim_row claim hspared hx
  -- the token of the claim is new
  have hnew : ∀ x ∈ xs, x ∉ claims log := by
    intro x hx hold
    obtain ⟨-, -, -, -, -, -, -, htoken⟩ := hrow x hx
    have hlt : x.leaseToken < s.db.nextId := (h.drawn x hold).2
    exact absurd htoken hlt.ne
  have hlt : s.db.nextId < s'.db.nextId := by
    rw [claim.nextId]
    exact Nat.lt_succ_self _
  exact {
    filed := hfiled
    drawn := by
      intro x hx
      simp only [claims_append, claims_claimed, List.mem_append] at hx
      rcases hx with hx | hx
      · exact ⟨(h.drawn x hx).1.trans hlt, (h.drawn x hx).2.trans hlt⟩
      · obtain ⟨a, ha, hid, -, -, -, -, htoken⟩ := hrow x hx
        exact ⟨hid ▸ (h.filed.attachment a ha).trans hlt, htoken ▸ hlt⟩
    numbered := h.claim_numbered claim hspared
    tokens := h.claim_tokens claim hspared
    fetched := by
      simp only [fetches_append, fetches_claimed, List.append_nil, claims_append, List.mem_append]
      exact ⟨h.fetched.1, fun x hx => .inl (h.fetched.2 x hx)⟩
    missed := by
      simp only [misses_append, misses_claimed, List.append_nil, claims_append, List.mem_append]
      exact ⟨h.missed.1, fun x hx => .inl (h.missed.2 x hx)⟩
    rested := h.claim_rested claim hspared
    inbound := by
      intro x hx a' ha' hid
      obtain ⟨a, ha, hfate⟩ := claim.rows a' ha'
      have hkept : a'.id = a.id ∧ a'.source = a.source := by
        rcases hfate with ⟨rfl, -⟩ | ⟨hleased, -⟩
        · exact ⟨rfl, rfl⟩
        · exact ⟨hleased.id, hleased.source⟩
      rw [hkept.2]
      simp only [claims_append, claims_claimed, List.mem_append] at hx
      rcases hx with hx | hx
      · exact h.inbound x hx a ha (hkept.1.symm.trans hid)
      · obtain ⟨b, hb, hbid, hsource, -⟩ := hrow x hx
        rwa [Table.key_inj ha hb (hkept.1.symm.trans (hid.trans hbid.symm))]
    counted := by
      intro a' ha' hsource
      simp only [claims_append, claims_claimed, attemptsAt_append, List.length_append]
      obtain ⟨a, ha, ⟨rfl, hnone⟩ | ⟨hleased, x, hx, hid⟩⟩ := claim.rows a' ha'
      · rw [attemptsAt_eq_nil hnone, List.length_nil]
        exact h.counted a' ha hsource
      · rw [hleased.id, hleased.attemptCount, ← hid, attemptsAt_of_mem claim.distinct hx, hid,
          h.counted a ha (hleased.source ▸ hsource)]
        rfl
    idle := by
      intro a' ha' hsource hstate huntil
      obtain ⟨a, ha, ⟨rfl, -⟩ | ⟨hleased, -⟩⟩ := claim.rows a' ha'
      · exact h.idle a' ha hsource hstate huntil
      · have hsome := hleased.leaseUntil
        rw [huntil] at hsome
        cases hsome
    leased := h.claim_leased claim hspared
    last := by
      intro a' ha' x hx hid hmax
      simp only [misses_append, misses_claimed, List.append_nil] at hx
      obtain ⟨a, ha, ⟨rfl, -⟩ | ⟨hleased, y, hy, hyid⟩⟩ := claim.rows a' ha'
      · exact h.last a' ha x hx hid hmax
      · obtain ⟨b, hb, hbid, -, -, -, hless, -⟩ := hrow y hy
        obtain rfl := Table.key_inj hb ha (hbid.trans hyid)
        have hle := (h.le_attemptCount (h.missed.2 x hx) hb (hleased.id.symm.trans hid)).1
        omega
    held := by
      intro q x hx
      simp only [claims_append, claims_claimed, List.mem_append, misses_append, misses_claimed,
        List.append_nil]
      dsimp only at hx
      rw [held q] at hx
      split at hx
      · exact ⟨.inr hx, fun hmissed => hnew x hx (h.missed.2 x hmissed)⟩
      · exact ⟨.inl (h.held q x hx).1, (h.held q x hx).2⟩
    unfetched := by
      intro q x hx
      simp only [fetches_append, fetches_claimed, List.append_nil, held q]
      dsimp only at hx
      rw [unfetched q] at hx
      split at hx
      · rename_i hq
        rw [if_pos hq]
        exact ⟨hx, fun hfetched => hnew x hx (h.fetched.2 x hfetched)⟩
      · rename_i hq
        rw [if_neg hq]
        exact h.unfetched q x hx
    distinct := by
      intro q
      dsimp only
      rw [held q]
      split
      · exact claim.distinct.of_map _
      · exact h.distinct q
    alone := by
      intro p q x hp hq
      dsimp only at hp hq
      rw [held p] at hp
      rw [held q] at hq
      split at hp
      · rename_i hpp
        split at hq
        · rename_i hqp
          exact hpp.trans hqp.symm
        · exact absurd (h.held q x hq).1 (hnew x hp)
      · split at hq
        · exact absurd (h.held p x hp).1 (hnew x hq)
        · exact h.alone p q x hp hq
    current := h.claim_current claim hspared held }

end

/-- An event that is no claim leaves the claims as they are. -/
theorem rested_append (h : Counted ⟨s, log⟩) {events : List IngestEvent}
    (hnone : claims events = []) :
    ∀ before x after, log ++ events = before ++ .claimed x :: after →
      (attemptsAt x.id (misses before)).length < ingestMaxAttempts := by
  intro before x after heq
  rcases List.append_eq_append_iff.mp heq with ⟨mid, hbefore, hmid⟩ | ⟨mid, hlog, hmid⟩
  · rw [hmid] at hnone
    simp [claims, IngestEvent.claim?] at hnone
  · cases mid with
    | nil =>
        rw [List.nil_append] at hmid
        rw [← hmid] at hnone
        simp [claims, IngestEvent.claim?] at hnone
    | cons e mid =>
        obtain ⟨rfl, rfl⟩ := List.cons.inj hmid
        exact h.rested before x mid hlog

theorem fetched_step (h : Counted ⟨s, log⟩) {rest : List ClaimedAttachment}
    (holds : s.heldBy pid = x :: rest) (waits : s.unfetchedBy pid = x :: rest) (db : s'.db = s.db)
    (held : ∀ q, s'.heldBy q = s.heldBy q)
    (unfetched : ∀ q, s'.unfetchedBy q = if q = pid then rest else s.unfetchedBy q) :
    Counted ⟨s', log ++ [.fetched x]⟩ := by
  have hquiet : Counted ⟨{ s' with procs := s.procs }, log⟩ :=
    h.quiet (by rw [db]; exact h.filed) (by rw [db]; exact .refl _) (fun _ => rfl) fun _ => rfl
  have hx : x ∈ s.heldBy pid := by
    rw [holds]
    exact List.mem_cons_self
  have hwaits : x ∈ s.unfetchedBy pid := by
    rw [waits]
    exact List.mem_cons_self
  have hclaims : claims (log ++ [.fetched x]) = claims log := by simp
  have hmisses : misses (log ++ [.fetched x]) = misses log := by simp
  have hfetches : fetches (log ++ [.fetched x]) = fetches log ++ [x] := by simp
  exact {
    filed := hquiet.filed
    drawn := by simpa only [hclaims] using hquiet.drawn
    numbered := by simpa only [hclaims] using h.numbered
    tokens := by simpa only [hclaims] using h.tokens
    fetched := by
      simp only [hclaims, hfetches]
      refine ⟨?_, fun y hy => ?_⟩
      · exact List.Nodup.append h.fetched.1 (List.nodup_singleton x)
          (List.disjoint_singleton.mpr (h.unfetched pid x hwaits).2)
      · rcases List.mem_append.mp hy with hy | hy
        · exact h.fetched.2 y hy
        · rw [List.mem_singleton.mp hy]
          exact (h.held pid x hx).1
    missed := by simpa only [hclaims, hmisses] using h.missed
    rested := h.rested_append (by simp)
    inbound := by simpa only [hclaims] using hquiet.inbound
    counted := by simpa only [hclaims] using hquiet.counted
    idle := hquiet.idle
    leased := by simpa only [hclaims] using hquiet.leased
    last := by simpa only [hmisses] using hquiet.last
    held := by
      intro q y hy
      simp only [hclaims, hmisses]
      exact h.held q y (held q ▸ hy)
    unfetched := by
      intro q y hy
      dsimp only at hy ⊢
      rw [hfetches, held q, List.mem_append, List.mem_singleton]
      rw [unfetched q] at hy
      split at hy
      next hq =>
        subst hq
        have hne : y ≠ x := by
          rintro rfl
          have hnodup := h.distinct q
          dsimp only at hnodup
          rw [holds, List.nodup_cons] at hnodup
          exact hnodup.1 hy
        have hold := h.unfetched q y (by dsimp only; rw [waits]; exact List.mem_cons_of_mem x hy)
        exact ⟨hold.1, fun hy => hy.elim hold.2 hne⟩
      next hq =>
        have hold := h.unfetched q y hy
        refine ⟨hold.1, fun hy => hy.elim hold.2 ?_⟩
        rintro rfl
        exact hq (h.alone q pid y hold.1 hx)
    distinct := fun q => by
      dsimp only
      rw [held q]
      exact h.distinct q
    alone := fun p q y hp hq => h.alone p q y (held p ▸ hp) (held q ▸ hq)
    current := fun q y hy => hquiet.current q y (held q ▸ hy) }

/-- What is held once a worker let go of its attachment. -/
theorem held_released (h : Counted ⟨s, log⟩) {rest : List ClaimedAttachment}
    (holds : s.heldBy pid = x :: rest)
    (held : ∀ q, s'.heldBy q = if q = pid then rest else s.heldBy q) :
    ∀ q, ∀ y ∈ s'.heldBy q, y ∈ s.heldBy q ∧ y ≠ x := by
  intro q y hy
  rw [held q] at hy
  split at hy
  next hq =>
    subst hq
    have hnodup := h.distinct q
    dsimp only at hnodup
    rw [holds, List.nodup_cons] at hnodup
    refine ⟨by rw [holds]; exact List.mem_cons_of_mem x hy, ?_⟩
    rintro rfl
    exact hnodup.1 hy
  next hq =>
    refine ⟨hy, ?_⟩
    rintro rfl
    have hx : y ∈ s.heldBy pid := by
      rw [holds]
      exact List.mem_cons_self
    exact hq (h.alone q pid y hy hx)

/-- The report of an attempt, which lets go of its attachment. -/
theorem released (h : Counted ⟨s, log⟩) (hfiled : s'.db.Filed) {rest : List ClaimedAttachment}
    {P : EmailAttachment → EmailAttachment → Prop} (holds : s.heldBy pid = x :: rest)
    (waits : s.unfetchedBy pid = rest) (report : IngestReport x P s.db s'.db)
    (held : ∀ q, s'.heldBy q = if q = pid then rest else s.heldBy q)
    (unfetched : ∀ q, s'.unfetchedBy q = s.unfetchedBy q)
    (idle : ∀ a a' : EmailAttachment, x.attemptCount = a.attemptCount → a.state = .pending →
      a'.state = .pending → P a a' → a.attemptCount < ingestMaxAttempts) :
    Counted ⟨s', log⟩ := by
  have hx : x ∈ s.heldBy pid := by
    rw [holds]
    exact List.mem_cons_self
  have hclaimed := (h.held pid x hx).1
  have hkept : ∀ a' ∈ s'.db.attachments, ∃ a ∈ s.db.attachments, a'.id = a.id ∧
      a'.source = a.source ∧ a'.attemptCount = a.attemptCount := by
    intro a' ha'
    obtain ⟨a, ha, ⟨rfl, -⟩ | ⟨hreleased, -, -⟩⟩ := report.rows a' ha'
    · exact ⟨a', ha, rfl, rfl, rfl⟩
    · exact ⟨a, ha, hreleased.id, hreleased.source, hreleased.attemptCount⟩
  have hheld := h.held_released holds held
  exact {
    filed := hfiled
    drawn := by
      dsimp only
      rw [report.nextId]
      exact h.drawn
    numbered := h.numbered
    tokens := h.tokens
    fetched := h.fetched
    missed := h.missed
    rested := h.rested
    inbound := by
      intro y hy a' ha' hid
      obtain ⟨a, ha, hid', hsource, -⟩ := hkept a' ha'
      exact hsource.trans (h.inbound y hy a ha (hid'.symm.trans hid))
    counted := by
      intro a' ha' hsource
      obtain ⟨a, ha, hid', hsource', hcount⟩ := hkept a' ha'
      rw [hid', hcount]
      exact h.counted a ha (hsource' ▸ hsource)
    idle := by
      intro a' ha' hsource hstate huntil
      obtain ⟨a, ha, ⟨rfl, -⟩ | ⟨hreleased, hP, hown⟩⟩ := report.rows a' ha'
      · exact h.idle a' ha hsource hstate huntil
      · obtain ⟨hpending, hcount⟩ := h.attemptCount_eq hclaimed ha hown
        rw [hreleased.attemptCount]
        exact idle a a' hcount hpending hstate hP
    leased := by
      intro a' ha' hsource t ht
      obtain ⟨a, ha, ⟨rfl, -⟩ | ⟨hreleased, -, -⟩⟩ := report.rows a' ha'
      · exact h.leased a' ha hsource t ht
      · rw [hreleased.leaseToken] at ht
        cases ht
    last := by
      intro a' ha' y hy hid hmax
      obtain ⟨a, ha, ⟨rfl, -⟩ | ⟨hreleased, -, hown⟩⟩ := report.rows a' ha'
      · exact h.last a' ha y hy hid hmax
      · -- a leased row is not failed
        have hfailed := h.last a ha y hy (hreleased.id.symm.trans hid) hmax
        have hpending := (h.attemptCount_eq hclaimed ha hown).1
        rw [hpending] at hfailed
        cases hfailed
    held := fun q y hy => h.held q y (hheld q y hy).1
    unfetched := by
      intro q y hy
      dsimp only at hy ⊢
      rw [unfetched q] at hy
      refine ⟨?_, (h.unfetched q y hy).2⟩
      rw [held q]
      split
      next hq =>
        subst hq
        rwa [waits] at hy
      next => exact (h.unfetched q y hy).1
    distinct := by
      intro q
      dsimp only
      rw [held q]
      split
      next hq =>
        subst hq
        have hnodup := h.distinct q
        dsimp only at hnodup
        rw [holds, List.nodup_cons] at hnodup
        exact hnodup.2
      next => exact h.distinct q
    alone := fun p q y hp hq => h.alone p q y (hheld p y hp).1 (hheld q y hq).1
    current := by
      intro q y hy a' ha' hid hcount
      obtain ⟨hold, hne⟩ := hheld q y hy
      obtain ⟨a, ha, ⟨rfl, -⟩ | ⟨hreleased, -, hown⟩⟩ := report.rows a' ha'
      · exact h.current q y hold a' ha hid hcount
      · -- the lease of the row was that of the reported attempt
        have htoken := h.current q y hold a ha (hreleased.id.symm.trans hid)
          (hcount.trans hreleased.attemptCount)
        simp only [ClaimedAttachment.owns, Bool.and_eq_true, beq_iff_eq] at hown
        rw [hown.2] at htoken
        refine absurd (h.tokens y (h.held q y hold).1 x hclaimed ?_
          (Option.some.inj htoken).symm) hne
        exact hid.symm.trans (hreleased.id.trans hown.1) }

/-- An attempt that ended without success is noted, and was not the last one or failed its row. -/
theorem noted (h : Counted ⟨s, log⟩) {xs : List ClaimedAttachment} (hdistinct : xs.Nodup)
    (hclaimed : ∀ x ∈ xs, x ∈ claims log ∧ x ∉ misses log) (hheld : ∀ q, ∀ x ∈ s.heldBy q, x ∉ xs)
    (hlast : ∀ a ∈ s.db.attachments, ∀ x ∈ xs, a.id = x.id → ingestMaxAttempts ≤ x.attemptCount →
      a.state = .failed) :
    Counted ⟨s, log ++ xs.map .missed⟩ := by
  have hclaims : claims (log ++ xs.map .missed) = claims log := by simp
  have hmisses : misses (log ++ xs.map .missed) = misses log ++ xs := by simp
  have hfetches : fetches (log ++ xs.map .missed) = fetches log := by simp
  exact {
    filed := h.filed
    drawn := by simpa only [hclaims] using h.drawn
    numbered := by simpa only [hclaims] using h.numbered
    tokens := by simpa only [hclaims] using h.tokens
    fetched := by simpa only [hclaims, hfetches] using h.fetched
    missed := by
      simp only [hclaims, hmisses]
      refine ⟨List.Nodup.append h.missed.1 hdistinct fun x hmissed hx => (hclaimed x hx).2 hmissed,
        fun x hx => ?_⟩
      rcases List.mem_append.mp hx with hx | hx
      · exact h.missed.2 x hx
      · exact (hclaimed x hx).1
    rested := h.rested_append (by simp)
    inbound := by simpa only [hclaims] using h.inbound
    counted := by simpa only [hclaims] using h.counted
    idle := h.idle
    leased := by simpa only [hclaims] using h.leased
    last := by
      intro a ha x hx hid hmax
      dsimp only at hx
      rw [hmisses] at hx
      rcases List.mem_append.mp hx with hx | hx
      · exact h.last a ha x hx hid hmax
      · exact hlast a ha x hx hid hmax
    held := by
      intro q x hx
      simp only [hclaims, hmisses, List.mem_append, not_or]
      exact ⟨(h.held q x hx).1, (h.held q x hx).2, hheld q x hx⟩
    unfetched := by simpa only [hfetches] using h.unfetched
    distinct := h.distinct
    alone := h.alone
    current := h.current }

/-- The attempts of a crashed worker are lost. -/
theorem dropped (h : Counted ⟨s, log⟩) (db : s'.db = s.db)
    (held : ∀ q, s'.heldBy q = if q = pid then [] else s.heldBy q)
    (unfetched : ∀ q, s'.unfetchedBy q = if q = pid then [] else s.unfetchedBy q) :
    Counted ⟨s', log⟩ := by
  have hheld : ∀ q, ∀ x ∈ s'.heldBy q, x ∈ s.heldBy q := by
    intro q x hx
    rw [held q] at hx
    split at hx
    · cases hx
    · exact hx
  have hquiet : Counted ⟨{ s' with procs := s.procs }, log⟩ :=
    h.quiet (by rw [db]; exact h.filed) (by rw [db]; exact .refl _) (fun _ => rfl) fun _ => rfl
  exact { hquiet with
    held := fun q x hx => h.held q x (hheld q x hx)
    unfetched := by
      intro q x hx
      dsimp only at hx ⊢
      rw [unfetched q] at hx
      rw [held q]
      split at hx
      · cases hx
      next hq =>
        rw [if_neg hq]
        exact h.unfetched q x hx
    distinct := by
      intro q
      dsimp only
      rw [held q]
      split
      · exact List.nodup_nil
      · exact h.distinct q
    alone := fun p q x hp hq => h.alone p q x (hheld p x hp) (hheld q x hq)
    current := fun q x hx => hquiet.current q x (hheld q x hx) }

theorem step [DecidableEq Digest] {r r' : IngestHistory Digest} (h : r.Counted)
    {action : Action Digest} (hreported : Reported r action) (hs : r.step rt action = some r') :
    r'.Counted := by
  obtain ⟨s, log⟩ := r
  obtain ⟨s', hstep, rfl⟩ := Option.map_eq_some_iff.mp hs
  have hfiled : s'.db.Filed := (step_performs hstep).filed h.filed
  have hmove := ingest_moves hstep
  generalize ingestEvents s s' action = events at hmove ⊢
  cases hmove with
  | quiet rows held unfetched =>
      rw [List.append_nil]
      exact h.quiet hfiled rows held unfetched
  | claimed pid c xs ha free claim held unfetched =>
      refine h.claimed claim (fun a hbatch huntil => ?_) hfiled held unfetched
      rw [Reported, ha, System.neglects, List.any_eq_false] at hreported
      have hspared := hreported a hbatch
      simp only [huntil, Bool.true_and, decide_eq_true_eq] at hspared
      exact Nat.lt_of_not_le hspared
  | fetched pid x rest holds waits db held unfetched =>
      exact h.fetched_step holds waits db held unfetched
  | stored pid x rest holds waits report held unfetched =>
      rw [List.append_nil]
      refine h.released hfiled holds waits report held unfetched fun a a' _ _ hpending hstored => ?_
      rw [hstored] at hpending
      cases hpending
  | missed pid x rest holds waits report held unfetched =>
      have hx : x ∈ s.heldBy pid := by
        rw [holds]
        exact List.mem_cons_self
      have hreleased : Counted ⟨s', log⟩ := by
        refine h.released hfiled holds waits report held unfetched
          fun a a' hcount _ hpending hfails => ?_
        rcases hfails with hfailed | ⟨hless, -⟩
        · rw [hfailed] at hpending
          cases hpending
        · rwa [← hcount]
      refine hreleased.noted (List.nodup_singleton x) ?_ ?_ ?_
      · intro y hy
        rw [List.mem_singleton.mp hy]
        exact h.held pid x hx
      · intro q y hy hmem
        exact (h.held_released holds held q y hy).2 (List.mem_singleton.mp hmem)
      · intro a' ha' y hy hid hmax
        obtain rfl := List.mem_singleton.mp hy
        obtain ⟨a, ha, ⟨rfl, hnot⟩ | ⟨-, hfails, -⟩⟩ := report.rows a' ha'
        · -- the last attempt at the row holds its lease
          have hle := h.le_attemptCount (h.held pid y hx).1 ha hid
          have htoken := h.current pid y hx a' ha hid (by omega)
          have hown : y.owns a' = true := by simp [ClaimedAttachment.owns, hid, htoken]
          rw [hown] at hnot
          cases hnot
        · rcases hfails with hfailed | ⟨hless, -⟩
          · exact hfailed
          · omega
  | crashed pid ha db held unfetched =>
      refine (h.dropped db held unfetched).noted (h.distinct pid) (h.held pid) ?_ ?_
      · intro q x hx hmem
        rw [held q] at hx
        split at hx
        · cases hx
        next hq => exact hq (h.alone q pid x hx hmem)
      · intro a hrow x hx hid hmax
        rw [db] at hrow
        rw [Reported, ha, System.neglects, List.any_eq_false] at hreported
        have hspared := hreported x hx
        have hfound : (s.db.attachments.get? x.id).isSome = true := by
          rw [← hid, Table.mem_iff_get?.mp hrow]
          rfl
        simp only [hfound, Bool.true_and, decide_eq_true_eq] at hspared
        exact absurd hmax hspared

theorem bounded (h : Counted ⟨s, log⟩) : IngestBounded ⟨s, log⟩ where
  fetched := by
    intro id
    obtain ⟨n, hn, hmap⟩ := h.numbered id
    have hlength := congrArg List.length hmap
    rw [List.length_map, List.length_range'] at hlength
    have hle := attemptsAt_length_le h.fetched.1 h.fetched.2 id
    dsimp only at hlength hle ⊢
    omega
  claimed := by
    intro id
    obtain ⟨n, hn, hmap⟩ := h.numbered id
    have hlength := congrArg List.length hmap
    rw [List.length_map, List.length_range'] at hlength
    dsimp only at hlength ⊢
    omega
  rested := h.rested
  failed := by
    intro a ha hmisses
    obtain ⟨n, hn, hmap⟩ := h.numbered a.id
    have hlength := congrArg List.length hmap
    rw [List.length_map, List.length_range'] at hlength
    dsimp only at hmisses hlength hmap
    have hle := h.missed_le a.id
    -- every attempt at the row was missed, the last one too
    have hlast : ingestMaxAttempts ∈ (attemptsAt a.id (claims log)).map
        ClaimedAttachment.attemptCount := by
      rw [hmap, List.mem_range'_1]
      have hpos : 0 < ingestMaxAttempts := by decide
      omega
    obtain ⟨x, hx, hcount⟩ := List.mem_map.mp hlast
    have hsub : attemptsAt a.id (misses log) ⊆ attemptsAt a.id (claims log) := by
      intro y hy
      obtain ⟨hy, hid⟩ := mem_attemptsAt.mp hy
      exact mem_attemptsAt.mpr ⟨h.missed.2 y hy, hid⟩
    have hsubperm := (h.missed.1.filter fun x => x.id == a.id).subperm hsub
    have hperm := hsubperm.perm_of_length_le (by
      change (attemptsAt a.id (claims log)).length ≤ (attemptsAt a.id (misses log)).length
      omega)
    obtain ⟨hmissed, hid⟩ := mem_attemptsAt.mp (hperm.mem_iff.mpr hx)
    exact h.last a ha x hmissed hid.symm hcount.ge

end IngestHistory.Counted

/-! ### The bound -/

/-- Where the last attempts are reported, an inbound attachment is claimed and fetched no more
often than the limit says, and after that many attempts without success it is failed and never
claimed again. -/
theorem Run.ingest_bounded [DecidableEq Digest] {config : Config} {now : Time}
    {r : IngestHistory Digest}
    (h : Run (IngestHistory.step rt) Reported (.initial config now) r) : IngestBounded r :=
  (h.invariant (I := IngestHistory.Counted) (.initial config now) fun _ _ _ hcounted hok hs =>
    hcounted.step hok hs).bounded

namespace Reference

/-- An email with an attachment. -/
def mailWithFile : ResendEmail :=
  { mail (js "<a>")
    none with attachments := some [⟨js "f", some (js "f.txt"), 1, none, none, none⟩] }

/-- A cycle of the ingest runtime whose worker crashes after the download. -/
def crashedCycle : List (Action SendRequest) :=
  [.start 1 .ingest {}, .run 1 {}, .run 1 { bytes := [1] }, .crash 1, .tick 60_000]

/-- A cycle of the ingest runtime whose download fails. -/
def failedCycle : List (Action SendRequest) :=
  [.start 1 .ingest {}, .run 1 {}, .run 1 { lost := some (js "Error", js "timeout") },
    .run 1 {}, .run 1 {}, .tick 300_000]

end Reference

/-- Seven workers crash after the download: the attachment is fetched seven times. -/
theorem ingest_unbounded :
    ¬∀ (config : Config) (now : Time) (r : IngestHistory SendRequest),
      Run (IngestHistory.step .reference) Always (.initial config now) r → IngestBounded r := by
  intro hbounded
  obtain ⟨r, hrun, hseven⟩ : ∃ r, Run (IngestHistory.step .reference)
      Always (.initial .reference 0) r ∧
      ∃ id ∈ (fetches r.log).map ClaimedAttachment.id, (attemptsAt id (fetches r.log)).length = 7 :=
    Run.exists_of_exec (Reference.receive 0 (js "1") (js "1") Reference.mailWithFile ++
      (List.replicate 7 Reference.crashedCycle).flatten) (by decide +kernel)
  obtain ⟨id, -, hlength⟩ := hseven
  have hle := (hbounded .reference 0 r hrun).fetched id
  rw [hlength] at hle
  exact absurd hle (by decide)

/-- Six downloads fail and are reported. -/
theorem ingest_bounded_reference :
    ∃ r : IngestHistory SendRequest, (misses r.log).length = 6 ∧ r.system.db.attachments.rows ≠ [] ∧
      IngestBounded r := by
  obtain ⟨r, hrun, hmisses, hrows⟩ : ∃ r, Run (IngestHistory.step .reference)
      Reported (.initial .reference 0) r ∧
      (misses r.log).length = 6 ∧ r.system.db.attachments.rows ≠ [] :=
    Run.exists_of_exec (Reference.receive 0 (js "1") (js "1") Reference.mailWithFile ++
      (List.replicate 6 Reference.failedCycle).flatten) (by decide +kernel)
  exact ⟨r, hmisses, hrows, Run.ingest_bounded hrun⟩

end ResendConversation
