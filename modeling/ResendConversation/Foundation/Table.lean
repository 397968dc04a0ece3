import Mathlib.Data.List.Nodup
import Mathlib.Data.List.Sort

/-! # Keyed tables

A table of a relational database, as a list of rows with pairwise distinct primary keys.
`Table key` carries the key constraint as a field, so every operation below returns a table
that satisfies it: `insert?` refuses a row whose key is taken, `update` rewrites the rows
selected by a predicate without touching their keys, `delete` drops the selected rows.

Statements about tables are made pointwise, through the lookup `get?` by primary key:
`get?_update`, `get?_delete` and `get?_insert?` compute it after each operation, and
`mem_iff_get?` converts between a row of the table and its lookup. -/

namespace Foundation

variable {α κ β : Type}

/-- A list of rows with pairwise distinct keys. -/
structure Table (key : α → κ) where
  rows : List α
  nodup : (rows.map key).Nodup

namespace Table

variable {key : α → κ}

instance : Membership α (Table key) := ⟨fun t r => r ∈ t.rows⟩

theorem mem_def {t : Table key} {r : α} : r ∈ t ↔ r ∈ t.rows := Iff.rfl

theorem ext_rows {t u : Table key} (h : t.rows = u.rows) : t = u := by
  cases t
  cases u
  simp only [mk.injEq]
  exact h

instance [DecidableEq α] : DecidableEq (Table key) := fun t u =>
  decidable_of_iff (t.rows = u.rows) ⟨ext_rows, fun h => h ▸ rfl⟩

instance (p : α → Prop) [DecidablePred p] (t : Table key) : Decidable (∀ r ∈ t, p r) :=
  inferInstanceAs (Decidable (∀ r ∈ t.rows, p r))

instance (p : α → Prop) [DecidablePred p] (t : Table key) : Decidable (∃ r ∈ t, p r) :=
  inferInstanceAs (Decidable (∃ r ∈ t.rows, p r))

/-- The table without rows. -/
def empty : Table key := ⟨[], by simp⟩

/-- Two rows with the same key are the same row. -/
theorem key_inj {t : Table key} {r s : α} (hr : r ∈ t) (hs : s ∈ t) (h : key r = key s) : r = s :=
  List.inj_on_of_nodup_map t.nodup hr hs h

/-! ### Reading -/

/-- The rows selected by `p`, in the order of the table. -/
def select (t : Table key) (p : α → Bool) : List α := t.rows.filter p

theorem mem_select {t : Table key} {p : α → Bool} {r : α} :
    r ∈ t.select p ↔ r ∈ t ∧ p r = true := List.mem_filter

/-- The rows selected by `p`, sorted by `le`. -/
def selectSorted (t : Table key) (p : α → Bool) (le : α → α → Prop) [DecidableRel le] : List α :=
  (t.select p).insertionSort le

theorem mem_selectSorted {t : Table key} {p : α → Bool} {le : α → α → Prop} [DecidableRel le]
    {r : α} : r ∈ t.selectSorted p le ↔ r ∈ t ∧ p r = true := by
  rw [selectSorted, (List.perm_insertionSort le _).mem_iff, mem_select]

theorem nodup_map_select (t : Table key) (p : α → Bool) : ((t.select p).map key).Nodup :=
  (List.Sublist.map key List.filter_sublist).nodup t.nodup

theorem nodup_map_selectSorted (t : Table key) (p : α → Bool) (le : α → α → Prop)
    [DecidableRel le] : ((t.selectSorted p le).map key).Nodup :=
  ((List.perm_insertionSort le _).map key).nodup_iff.mpr (t.nodup_map_select p)

variable [DecidableEq κ]

/-- The row with primary key `k`. -/
def get? (t : Table key) (k : κ) : Option α := t.rows.find? fun r => decide (key r = k)

theorem get?_eq_some {t : Table key} {k : κ} {r : α} : t.get? k = some r ↔ r ∈ t ∧ key r = k := by
  constructor
  · intro h
    exact ⟨List.mem_of_find?_eq_some h, by simpa using List.find?_some h⟩
  · rintro ⟨hr, rfl⟩
    cases h : t.get? (key r) with
    | none =>
        have := List.find?_eq_none.mp h r hr
        simp at this
    | some s =>
        have hs : s ∈ t := List.mem_of_find?_eq_some h
        have hk : key s = key r := by simpa using List.find?_some h
        rw [key_inj hs hr hk]

theorem get?_eq_none {t : Table key} {k : κ} : t.get? k = none ↔ ∀ r ∈ t, key r ≠ k := by
  simp [get?, List.find?_eq_none, mem_def]

theorem mem_iff_get? {t : Table key} {r : α} : r ∈ t ↔ t.get? (key r) = some r := by
  simp [get?_eq_some]

theorem mem_of_get? {t : Table key} {k : κ} {r : α} (h : t.get? k = some r) : r ∈ t :=
  (get?_eq_some.mp h).1

theorem key_of_get? {t : Table key} {k : κ} {r : α} (h : t.get? k = some r) : key r = k :=
  (get?_eq_some.mp h).2

@[simp] theorem get?_empty (k : κ) : (empty : Table key).get? k = none := rfl

/-! ### Writing -/

/-- `INSERT`: refused when the primary key is taken. -/
def insert? (t : Table key) (r : α) : Option (Table key) :=
  if h : key r ∈ t.rows.map key then none
  else some ⟨t.rows ++ [r], by
    rw [List.map_append, List.map_singleton]
    exact t.nodup.append (List.nodup_singleton _) (by simpa using h)⟩

/-- `UPDATE … WHERE p`: the rows selected by `p` are rewritten by `f`, which keeps the key. -/
def update (t : Table key) (p : α → Bool) (f : α → α)
    (keep : ∀ r, key (f r) = key r := by exact fun _ => Eq.trans rfl rfl) : Table key :=
  ⟨t.rows.map fun r => if p r then f r else r, by
    have : (t.rows.map fun r => if p r then f r else r).map key = t.rows.map key := by
      rw [List.map_map]
      apply List.map_congr_left
      intro r _
      simp only [Function.comp]
      split
      · exact keep r
      · rfl
    rw [this]
    exact t.nodup⟩

/-- `DELETE … WHERE p`. -/
def delete (t : Table key) (p : α → Bool) : Table key :=
  ⟨t.rows.filter fun r => !p r, (List.Sublist.map key List.filter_sublist).nodup t.nodup⟩

/-- Writes one row, replacing the row with the same key if there is one. -/
def set (t : Table key) (r : α) : Table key :=
  ⟨r :: t.rows.filter fun s => key s ≠ key r, by
    rw [List.map_cons, List.nodup_cons]
    refine ⟨?_, (List.Sublist.map key List.filter_sublist).nodup t.nodup⟩
    simp only [List.mem_map, List.mem_filter, not_exists, not_and, and_imp]
    intro s _ hs
    simpa using hs⟩

/-- The number of rows selected by `p`. -/
def count (t : Table key) (p : α → Bool) : ℕ := (t.select p).length

omit [DecidableEq κ] in
theorem exists_of_count_eq_one {t : Table key} {p : α → Bool} (h : t.count p = 1) :
    ∃ r ∈ t, p r = true := by
  have hpos : 0 < (t.select p).length := by
    rw [count] at h
    omega
  obtain ⟨r, hr⟩ := List.exists_mem_of_length_pos hpos
  exact ⟨r, mem_select.mp hr⟩

/-- A new row is stored at the end. -/
theorem insert?_rows {t u : Table key} {r : α} (h : t.insert? r = some u) :
    u.rows = t.rows ++ [r] := by
  unfold insert? at h
  split at h
  · cases h
  · cases h
    rfl

theorem mem_insert? {t u : Table key} {r s : α} (h : t.insert? r = some u) :
    s ∈ u ↔ s ∈ t ∨ s = r := by
  unfold insert? at h
  split at h
  · cases h
  · cases h
    simp [mem_def]

theorem insert?_eq_some_iff {t : Table key} {r : α} :
    (∃ u, t.insert? r = some u) ↔ t.get? (key r) = none := by
  rw [get?_eq_none]
  unfold insert?
  split
  next h =>
    obtain ⟨s, hs, hk⟩ := List.mem_map.mp h
    simp only [reduceCtorEq, exists_false, false_iff, not_forall]
    exact ⟨s, hs, fun hne => hne hk⟩
  next h =>
    simp only [Option.some.injEq, exists_eq', true_iff]
    intro s hs hk
    exact h (List.mem_map.mpr ⟨s, hs, hk⟩)

theorem get?_of_insert? {t u : Table key} {r : α} (h : t.insert? r = some u) (k : κ) :
    u.get? k = if key r = k then some r else t.get? k := by
  split
  next hk => exact get?_eq_some.mpr ⟨(mem_insert? h).mpr (.inr rfl), hk⟩
  next hk =>
    apply Option.ext
    intro s
    rw [get?_eq_some, get?_eq_some, mem_insert? h]
    constructor
    · rintro ⟨hs | rfl, hk'⟩
      · exact ⟨hs, hk'⟩
      · exact absurd hk' hk
    · rintro ⟨hs, hk'⟩
      exact ⟨.inl hs, hk'⟩

omit [DecidableEq κ] in
theorem mem_update {t : Table key} {p : α → Bool} {f : α → α} {keep : ∀ r, key (f r) = key r}
    {s : α} : s ∈ t.update p f keep ↔ ∃ r ∈ t, (if p r then f r else r) = s := by
  simp [mem_def, update]

/-- The number of rows under a key. -/
theorem count_eq {t : Table key} {p : α → Bool} {k : κ} (hp : ∀ r, p r = true ↔ key r = k) :
    t.count p = if (t.get? k).isSome then 1 else 0 := by
  have hcount : t.count p = (t.rows.map key).count k := by
    rw [count, select, ← List.countP_eq_length_filter, List.count, List.countP_map]
    refine List.countP_congr fun r _ => ?_
    rw [hp]
    simp
  rw [hcount]
  cases hk : t.get? k with
  | none =>
      refine List.count_eq_zero_of_not_mem fun hmem => ?_
      obtain ⟨r, hr, hrk⟩ := List.mem_map.mp hmem
      exact get?_eq_none.mp hk r hr hrk
  | some r =>
      refine List.count_eq_one_of_mem t.nodup ?_
      exact List.mem_map.mpr ⟨r, mem_of_get? hk, key_of_get? hk⟩

omit [DecidableEq κ] in
/-- The number of rows under distinct keys that all exist. -/
theorem count_eq_length {t : Table key} {p : α → Bool} {ks : List κ} (hks : ks.Nodup)
    (hp : ∀ r ∈ t, p r = true ↔ key r ∈ ks) (hfound : ∀ k ∈ ks, ∃ r ∈ t, key r = k) :
    t.count p = ks.length := by
  have hperm : ((t.select p).map key).Perm ks := by
    refine (List.perm_ext_iff_of_nodup (t.nodup_map_select p) hks).mpr fun k => ?_
    constructor
    · intro hk
      obtain ⟨r, hr, rfl⟩ := List.mem_map.mp hk
      obtain ⟨hmem, hpr⟩ := mem_select.mp hr
      exact (hp r hmem).mp hpr
    · intro hk
      obtain ⟨r, hr, rfl⟩ := hfound k hk
      exact List.mem_map.mpr ⟨r, mem_select.mpr ⟨hr, (hp r hr).mpr hk⟩, rfl⟩
  rw [count, ← hperm.length_eq, List.length_map]

omit [DecidableEq κ] in
/-- An update keeps every row under its key. -/
theorem exists_mem_update {t : Table key} {p : α → Bool} {f : α → α} (keep : ∀ r, key (f r) = key r)
    {r : α} (h : r ∈ t) : ∃ s ∈ t.update p f keep, key s = key r := by
  refine ⟨_, mem_update.mpr ⟨r, h, rfl⟩, ?_⟩
  split
  · exact keep r
  · rfl

omit [DecidableEq κ] in
/-- A deletion that selects no row. -/
theorem delete_eq_self {t : Table key} {p : α → Bool} (h : ∀ r ∈ t, p r = false) :
    t.delete p = t := by
  apply ext_rows
  rw [delete, List.filter_eq_self]
  intro r hr
  rw [h r hr]
  rfl

omit [DecidableEq κ] in
/-- An update that changes no row it selects. -/
theorem update_eq_self {t : Table key} {p : α → Bool} {f : α → α} {keep : ∀ r, key (f r) = key r}
    (h : ∀ r ∈ t, p r = true → f r = r) : t.update p f keep = t := by
  apply ext_rows
  rw [update]
  refine (List.map_congr_left fun r hr => ?_).trans (List.map_id _)
  split
  next hp => exact h r hr hp
  · rfl

omit [DecidableEq κ] in
theorem key_ite {p : α → Bool} {f : α → α} (keep : ∀ r, key (f r) = key r) (r : α) :
    key (if p r then f r else r) = key r := by
  split
  · exact keep r
  · rfl

@[simp] theorem get?_update {t : Table key} {p : α → Bool} {f : α → α}
    {keep : ∀ r, key (f r) = key r} (k : κ) :
    (t.update p f keep).get? k = (t.get? k).map fun r => if p r then f r else r := by
  apply Option.ext
  intro s
  rw [get?_eq_some, mem_update, Option.map_eq_some_iff]
  constructor
  · rintro ⟨⟨r, hr, rfl⟩, hk⟩
    rw [key_ite keep] at hk
    exact ⟨r, get?_eq_some.mpr ⟨hr, hk⟩, rfl⟩
  · rintro ⟨r, hr, rfl⟩
    obtain ⟨hr, hk⟩ := get?_eq_some.mp hr
    exact ⟨⟨r, hr, rfl⟩, by rw [key_ite keep, hk]⟩

omit [DecidableEq κ] in
theorem mem_delete {t : Table key} {p : α → Bool} {r : α} :
    r ∈ t.delete p ↔ r ∈ t ∧ p r = false := by
  simp [mem_def, delete]

@[simp] theorem get?_delete {t : Table key} {p : α → Bool} (k : κ) :
    (t.delete p).get? k = (t.get? k).filter fun r => !p r := by
  apply Option.ext
  intro s
  rw [get?_eq_some, mem_delete, Option.filter_eq_some_iff, get?_eq_some]
  simp only [Bool.not_eq_eq_eq_not, Bool.not_true]
  tauto

theorem mem_set {t : Table key} {r s : α} : s ∈ t.set r ↔ s = r ∨ (s ∈ t ∧ key s ≠ key r) := by
  simp [mem_def, set]

@[simp] theorem get?_set {t : Table key} {r : α} (k : κ) :
    (t.set r).get? k = if key r = k then some r else t.get? k := by
  apply Option.ext
  intro s
  rw [get?_eq_some, mem_set]
  split
  next hk =>
    constructor
    · rintro ⟨rfl | ⟨_, hne⟩, hs⟩
      · rfl
      · exact absurd (hs.trans hk.symm) hne
    · rintro ⟨⟩
      exact ⟨.inl rfl, hk⟩
  next hk =>
    rw [get?_eq_some]
    constructor
    · rintro ⟨rfl | ⟨hs, _⟩, hs'⟩
      · exact absurd hs' hk
      · exact ⟨hs, hs'⟩
    · rintro ⟨hs, hs'⟩
      exact ⟨.inr ⟨hs, fun h => hk (h.symm.trans hs')⟩, hs'⟩

end Table

end Foundation
