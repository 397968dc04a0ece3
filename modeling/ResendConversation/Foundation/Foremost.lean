import Mathlib.Data.List.MinMax
import Mathlib.Data.Prod.Lex
import Mathlib.Order.Bounds.Basic

/-! # Foremost rows

Rows hold a rank from a list of precedence and a time.  `foremost` is the first rank of the list
that a row holds, with the earliest time among the rows that hold it.  It is the least of the
rows in the lexicographic order of rank and time (`foremost_eq_some`), so it depends on the set
of the rows only (`foremost_congr`), and a merge of merged groups is the merge of everything
(`foremost_of_groups`). -/

namespace Foundation

variable {α σ τ : Type*} [DecidableEq σ] [LinearOrder τ]

/-- The earliest time of the rows. -/
def earliest (time : α → τ) (rows : List α) : Option τ :=
  rows.foldl (fun (earliest : Option τ) row =>
    match earliest with
    | some t => if t ≤ time row then some t else some (time row)
    | none => some (time row)) none

def foremost (precedence : List σ) (rank : α → σ) (time : α → τ) (rows : List α) : Option (σ × τ) :=
  match precedence.find? fun candidate => rows.any fun row => rank row == candidate with
  | none => none
  | some winner =>
      (earliest time (rows.filter fun row => rank row == winner)).map fun t => (winner, t)

/-- The place of a rank and a time: the earlier in the list and in time, the lower. -/
def standing (precedence : List σ) (s : σ) (t : τ) : ℕ ×ₗ τ := toLex (precedence.idxOf s, t)

/-- The places of the rows. -/
def standings (precedence : List σ) (rank : α → σ) (time : α → τ) (rows : List α) : Set (ℕ ×ₗ τ) :=
  { p | ∃ row ∈ rows, standing precedence (rank row) (time row) = p }

variable {precedence : List σ} {rank : α → σ} {time : α → τ} {rows rows' : List α} {s u : σ} {t : τ}

omit [LinearOrder τ] in
theorem mem_standings {p : ℕ ×ₗ τ} : p ∈ standings precedence rank time rows ↔
    ∃ row ∈ rows, standing precedence (rank row) (time row) = p := Iff.rfl

theorem standing_le_iff {t' : τ} : standing precedence s t ≤ standing precedence u t' ↔
    precedence.idxOf s < precedence.idxOf u ∨ (precedence.idxOf s = precedence.idxOf u ∧ t ≤ t') :=
  Prod.Lex.toLex_le_toLex

omit [LinearOrder τ] in
theorem standing_inj {t' : τ} (hs : s ∈ precedence) :
    standing precedence s t = standing precedence u t' ↔ s = u ∧ t = t' := by
  constructor
  · intro h
    have hplace : (precedence.idxOf s, t) = (precedence.idxOf u, t') := h
    rw [Prod.mk.injEq, List.idxOf_inj hs] at hplace
    exact hplace
  · rintro ⟨rfl, rfl⟩
    rfl

/-! ### The earliest time -/

theorem earliest_from (rows : List α) (t : τ) :
    rows.foldl (fun (earliest : Option τ) row =>
      match earliest with
      | some t => if t ≤ time row then some t else some (time row)
      | none => some (time row)) (some t) = some ((rows.map time).foldl min t) := by
  induction rows generalizing t with
  | nil => rfl
  | cons row rows ih =>
      rw [List.foldl_cons, List.map_cons, List.foldl_cons, ← ih (min t (time row))]
      refine congrArg (rows.foldl _) ?_
      by_cases h : t ≤ time row
      · simp [h]
      · simp [h, min_eq_right (le_of_not_ge h)]

theorem earliest_eq_min (rows : List α) : earliest time rows = (rows.map time).min? := by
  cases rows with
  | nil => rfl
  | cons row rows =>
      rw [List.map_cons, List.min?_cons', ← earliest_from]
      rfl

theorem earliest_eq_some : earliest time rows = some t ↔
    (∃ row ∈ rows, time row = t) ∧ ∀ row ∈ rows, t ≤ time row := by
  rw [earliest_eq_min, List.min?_eq_some_iff]
  simp

theorem earliest_isSome (h : rows ≠ []) : (earliest time rows).isSome := by
  cases rows with
  | nil => exact absurd rfl h
  | cons row rows =>
      rw [earliest_eq_min, List.map_cons, List.min?_cons']
      rfl

/-! ### The first rank -/

/-- What `find?` finds stands before every other element that it accepts. -/
theorem idxOf_le_of_find? {p : σ → Bool} (h : precedence.find? p = some s) (hu : p u = true) :
    precedence.idxOf s ≤ precedence.idxOf u := by
  induction precedence with
  | nil => cases h
  | cons v precedence ih =>
      by_cases hv : p v = true
      · rw [List.find?_cons_of_pos hv, Option.some.injEq] at h
        rw [h, List.idxOf_cons_self]
        exact Nat.zero_le _
      · rw [List.find?_cons_of_neg hv] at h
        have hs := List.find?_some h
        have hvs : v ≠ s := fun heq => hv (heq ▸ hs)
        have hvu : v ≠ u := fun heq => hv (heq ▸ hu)
        rw [List.idxOf_cons_ne _ hvs, List.idxOf_cons_ne _ hvu]
        exact Nat.succ_le_succ (ih h)

/-! ### The least row -/

theorem foremost_isSome (hall : ∀ row ∈ rows, rank row ∈ precedence) (h : rows ≠ []) :
    (foremost precedence rank time rows).isSome := by
  obtain ⟨row, hrow⟩ := List.exists_mem_of_ne_nil rows h
  have hfind :
      (precedence.find? fun candidate => rows.any fun row => rank row == candidate).isSome :=
    List.find?_isSome.mpr
      ⟨rank row, hall row hrow, List.any_eq_true.mpr ⟨row, hrow, beq_self_eq_true _⟩⟩
  obtain ⟨winner, hwinner⟩ := Option.isSome_iff_exists.mp hfind
  have hheld :=
    List.find?_some (p := fun candidate => rows.any fun row => rank row == candidate) hwinner
  obtain ⟨holder, hholder, hrank⟩ := List.any_eq_true.mp hheld
  have hholds : rows.filter (fun row => rank row == winner) ≠ [] :=
    List.ne_nil_of_mem (List.mem_filter.mpr ⟨hholder, hrank⟩)
  unfold foremost
  rw [hwinner]
  dsimp only
  rw [Option.isSome_map]
  exact earliest_isSome hholds

theorem isLeast_of_foremost (h : foremost precedence rank time rows = some (s, t)) :
    s ∈ precedence ∧ IsLeast (standings precedence rank time rows) (standing precedence s t) := by
  unfold foremost at h
  cases hfind : precedence.find? fun candidate => rows.any fun row => rank row == candidate with
  | none =>
      rw [hfind] at h
      cases h
  | some winner =>
      rw [hfind] at h
      simp only [Option.map_eq_some_iff, Prod.mk.injEq] at h
      obtain ⟨t', ht, rfl, rfl⟩ := h
      obtain ⟨⟨row, hrow, htime⟩, hearliest⟩ := earliest_eq_some.mp ht
      rw [List.mem_filter, beq_iff_eq] at hrow
      refine ⟨List.mem_of_find?_eq_some hfind, ⟨row, hrow.1, by rw [hrow.2, htime]⟩, ?_⟩
      rintro _ ⟨other, hother, rfl⟩
      have hholds : (rows.any fun row => rank row == rank other) = true :=
        List.any_eq_true.mpr ⟨other, hother, beq_self_eq_true _⟩
      have hle := idxOf_le_of_find? hfind (u := rank other) hholds
      rw [standing_le_iff]
      rcases hle.lt_or_eq with hlt | heq
      · exact .inl hlt
      · have hsame := (List.idxOf_inj (List.mem_of_find?_eq_some hfind)).mp heq
        exact .inr ⟨heq, hearliest other (List.mem_filter.mpr ⟨hother, beq_iff_eq.mpr hsame.symm⟩)⟩

/-- The merge of the rows is the least of them. -/
theorem foremost_eq_some (hall : ∀ row ∈ rows, rank row ∈ precedence) :
    foremost precedence rank time rows = some (s, t) ↔
      IsLeast (standings precedence rank time rows) (standing precedence s t) := by
  constructor
  · exact fun h => (isLeast_of_foremost h).2
  · intro h
    obtain ⟨row, hrow, -⟩ := h.1
    have hsome : (foremost precedence rank time rows).isSome :=
      foremost_isSome hall (List.ne_nil_of_mem hrow)
    obtain ⟨⟨s', t'⟩, hmerged⟩ := Option.isSome_iff_exists.mp hsome
    obtain ⟨hmem, hleast⟩ := isLeast_of_foremost hmerged
    obtain ⟨rfl, rfl⟩ := (standing_inj hmem).mp (hleast.unique h)
    exact hmerged

/-- The order of the rows and their repetition do not matter. -/
theorem foremost_congr (hall : ∀ row ∈ rows, rank row ∈ precedence)
    (h : ∀ row, row ∈ rows ↔ row ∈ rows') :
    foremost precedence rank time rows = foremost precedence rank time rows' := by
  have hall' : ∀ row ∈ rows', rank row ∈ precedence := fun row hrow => hall row ((h row).mpr hrow)
  have hsame : standings precedence rank time rows = standings precedence rank time rows' := by
    refine Set.ext fun p => ?_
    simp only [mem_standings, h]
  refine Option.ext fun ⟨s, t⟩ => ?_
  rw [foremost_eq_some hall, foremost_eq_some hall', hsame]

/-- Where every group has a least element, the least of these is the least of everything. -/
theorem IsLeast.of_groups {β ι : Type*} [Preorder β] {I : Set ι} {S : ι → Set β} {m : ι → β} {x : β}
    (hgroups : ∀ i ∈ I, IsLeast (S i) (m i)) (h : IsLeast (m '' I) x) :
    IsLeast { y | ∃ i ∈ I, y ∈ S i } x := by
  obtain ⟨⟨i, hi, rfl⟩, hlower⟩ := h
  refine ⟨⟨i, hi, (hgroups i hi).1⟩, ?_⟩
  rintro y ⟨j, hj, hy⟩
  exact (hlower ⟨j, hj, rfl⟩).trans ((hgroups j hj).2 hy)

/-- Merging the results of groups, each held by a row, merges all their rows. -/
theorem foremost_of_groups {groups : List (List α × α)}
    (hall : ∀ g ∈ groups, ∀ row ∈ g.1, rank row ∈ precedence)
    (hall' : ∀ g ∈ groups, rank g.2 ∈ precedence)
    (hgroups : ∀ g ∈ groups, foremost precedence rank time g.1 = some (rank g.2, time g.2))
    (h : foremost precedence rank time (groups.map Prod.snd) = some (s, t)) :
    foremost precedence rank time (groups.map Prod.fst).flatten = some (s, t) := by
  have hrows : ∀ row ∈ (groups.map Prod.fst).flatten, rank row ∈ precedence := by
    intro row hrow
    simp only [List.mem_flatten, List.mem_map] at hrow
    obtain ⟨_, ⟨g, hg, rfl⟩, hrow⟩ := hrow
    exact hall g hg row hrow
  have hholders : ∀ row ∈ groups.map Prod.snd, rank row ∈ precedence := by
    intro row hrow
    obtain ⟨g, hg, rfl⟩ := List.mem_map.mp hrow
    exact hall' g hg
  rw [foremost_eq_some hholders] at h
  rw [foremost_eq_some hrows]
  have hleast :=
    IsLeast.of_groups (I := { g | g ∈ groups }) (S := fun g => standings precedence rank time g.1)
    (m := fun g => standing precedence (rank g.2) (time g.2)) (x := standing precedence s t)
    (fun g hg => (foremost_eq_some (hall g hg)).mp (hgroups g hg)) ?_
  · refine ⟨?_, fun p hp => hleast.2 ?_⟩
    · obtain ⟨g, hg, row, hrow, hp⟩ := hleast.1
      exact ⟨row, List.mem_flatten.mpr ⟨g.1, List.mem_map_of_mem hg, hrow⟩, hp⟩
    · obtain ⟨row, hrow, hp⟩ := hp
      obtain ⟨l, hl, hrow⟩ := List.mem_flatten.mp hrow
      obtain ⟨g, hg, rfl⟩ := List.mem_map.mp hl
      exact ⟨g, hg, row, hrow, hp⟩
  · refine ⟨?_, fun p hp => h.2 ?_⟩
    · obtain ⟨row, hrow, hp⟩ := h.1
      obtain ⟨g, hg, rfl⟩ := List.mem_map.mp hrow
      exact ⟨g, hg, hp⟩
    · obtain ⟨g, hg, hp⟩ := hp
      exact ⟨g.2, List.mem_map_of_mem hg, hp⟩

end Foundation
