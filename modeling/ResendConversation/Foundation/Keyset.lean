import Mathlib.Order.Basic
import ResendConversation.Foundation.Table

/-! # Keyset pagination

A listing shows its rows in the order of a key, `limit` at a time.  A page names the key of its
last row as the position at which the next page starts, and names none when no row is left.

`follow` is a reader that asks for page after page; each request is answered from a snapshot of
its own, so that writes may fall between two requests.  A row that keeps its key in every snapshot
is shown exactly once (`follow_mem`, `follow_pairwise`); over one snapshot all the rows are shown,
in order, and the reader comes to an end (`exists_follow`).

`browse` is the reader of a service that answers with rendered pages and encoded positions.  When
the service renders what the listing shows, the reader gets the rendered pages
(`browse_eq`). -/

namespace Foundation

namespace Keyset

variable {Row κ σ : Type} [LinearOrder κ]

/-- A key that lies behind a position; every key lies behind the start. -/
def Behind (pos : Option κ) (k : κ) : Prop := ∀ p ∈ pos, p < k

instance (pos : Option κ) (k : κ) : Decidable (Behind pos k) :=
  inferInstanceAs (Decidable (∀ p ∈ pos, p < k))

@[simp] theorem behind_none (k : κ) : Behind none k := by simp [Behind]

@[simp] theorem behind_some {p k : κ} : Behind (some p) k ↔ p < k := by simp [Behind]

structure Page (Row κ : Type) where
  rows : List Row
  next : Option κ

/-- The rows behind a position. -/
def rest (key : Row → κ) (rows : List Row) (pos : Option κ) : List Row :=
  rows.filter fun r => decide (Behind pos (key r))

/-- The first `limit` rows of what is left, and the key of the last of them if there are more. -/
def firstPage (key : Row → κ) (limit : ℕ) (left : List Row) : Page Row κ where
  rows := left.take limit
  next := if limit < left.length then (left.take limit).getLast?.map key else none

/-- The page behind a position, out of rows in the order of their keys. -/
def page (key : Row → κ) (limit : ℕ) (rows : List Row) (pos : Option κ) : Page Row κ :=
  firstPage key limit (rest key rows pos)

theorem mem_rest {key : Row → κ} {rows : List Row} {pos : Option κ} {r : Row} :
    r ∈ rest key rows pos ↔ r ∈ rows ∧ Behind pos (key r) := by
  simp [rest]

theorem rest_none (key : Row → κ) (rows : List Row) : rest key rows none = rows := by
  simp [rest]

theorem pairwise_rest {key : Row → κ} {rows : List Row} (h : rows.Pairwise fun a b => key a < key b)
    (pos : Option κ) : (rest key rows pos).Pairwise fun a b => key a < key b :=
  h.sublist List.filter_sublist

section Step

variable {key : Row → κ} {limit : ℕ} {rows : List Row} {pos : Option κ}

theorem page_rows_subset {r : Row} (h : r ∈ (page key limit rows pos).rows) :
    r ∈ rows ∧ Behind pos (key r) :=
  mem_rest.mp (List.mem_of_mem_take h)

theorem page_length_le : (page key limit rows pos).rows.length ≤ limit := by
  rw [page, firstPage, List.length_take]
  omega

theorem pairwise_page (h : rows.Pairwise fun a b => key a < key b) :
    (page key limit rows pos).rows.Pairwise fun a b => key a < key b :=
  (pairwise_rest h pos).sublist (List.take_sublist _ _)

/-- The last page shows all that is left. -/
theorem page_rows_of_last (h : (page key limit rows pos).next = none) (hlimit : 0 < limit) :
    (page key limit rows pos).rows = rest key rows pos := by
  unfold page firstPage at h ⊢
  split at h
  next hlt =>
    rw [Option.map_eq_none_iff, List.getLast?_eq_none_iff, List.take_eq_nil_iff] at h
    rcases h with h | h
    · omega
    · rw [h] at hlt
      simp at hlt
  next hle => exact List.take_of_length_le (by omega)

/-- A page with a next position ends with the row of that position. -/
theorem page_rows_of_next {k : κ} (h : (page key limit rows pos).next = some k) :
    ∃ init r, (page key limit rows pos).rows = init ++ [r] ∧ key r = k := by
  unfold page firstPage at h ⊢
  split at h
  next hlt =>
    obtain ⟨r, hr, hk⟩ := Option.map_eq_some_iff.mp h
    obtain ⟨init, hinit⟩ := List.getLast?_eq_some_iff.mp hr
    exact ⟨init, r, hinit, hk⟩
  next hle => cases h

/-- The next position is the key of a row that is shown. -/
theorem exists_of_next {k : κ} (h : (page key limit rows pos).next = some k) :
    ∃ r ∈ (page key limit rows pos).rows, key r = k := by
  obtain ⟨init, r, hrows, hk⟩ := page_rows_of_next h
  refine ⟨r, ?_, hk⟩
  rw [hrows]
  exact List.mem_append_right init (List.mem_singleton_self r)

/-- The rows shown lie up to the next position. -/
theorem le_of_next (hsorted : rows.Pairwise fun a b => key a < key b) {k : κ}
    (h : (page key limit rows pos).next = some k) {r : Row}
    (hr : r ∈ (page key limit rows pos).rows) :
    key r ≤ k := by
  have hpage : (page key limit rows pos).rows.Pairwise fun a b => key a < key b :=
    pairwise_page hsorted
  obtain ⟨init, last, hrows, hk⟩ := page_rows_of_next h
  rw [hrows] at hpage hr
  rw [List.mem_append, List.mem_singleton] at hr
  rcases hr with hr | hr
  · rw [← hk]
    exact le_of_lt ((List.pairwise_append.mp hpage).2.2 r hr last (List.mem_singleton_self _))
  · rw [hr, hk]

/-- What is left is the page and what lies behind its last row. -/
theorem rest_eq_append (hsorted : rows.Pairwise fun a b => key a < key b) {k : κ}
    (h : (page key limit rows pos).next = some k) :
    rest key rows pos = (page key limit rows pos).rows ++ rest key rows (some k) := by
  have hrest := pairwise_rest hsorted pos
  obtain ⟨init, last, hrows, hk⟩ := page_rows_of_next h
  have hsplit : rest key rows pos =
      (page key limit rows pos).rows ++ (rest key rows pos).drop limit :=
    (List.take_append_drop limit _).symm
  have hbehind : ∀ r ∈ (rest key rows pos).drop limit, k < key r := by
    intro r hr
    rw [hsplit, hrows] at hrest
    rw [← hk]
    exact (List.pairwise_append.mp hrest).2.2 last (by simp) r hr
  have hpos : Behind pos k := by
    rw [← hk]
    have hlast : last ∈ (page key limit rows pos).rows := by
      rw [hrows]
      exact List.mem_append_right init (List.mem_singleton_self last)
    exact (page_rows_subset hlast).2
  -- behind the last row means behind the position as well
  have hnarrow : rest key rows (some k) = (rest key rows pos).filter fun r =>
      decide (k < key r) := by
    rw [rest, rest, List.filter_filter]
    refine List.filter_congr fun r _ => ?_
    rw [← Bool.decide_and, decide_eq_decide, behind_some]
    exact ⟨fun hlt => ⟨hlt, fun p hp => (hpos p hp).trans hlt⟩, fun hand => hand.1⟩
  have hdrop : ((rest key rows pos).filter fun r => decide (k < key r)) =
      (rest key rows pos).drop limit := by
    conv_lhs => rw [hsplit]
    rw [List.filter_append, List.filter_eq_nil_iff.mpr, List.nil_append, List.filter_eq_self.mpr]
    · intro r hr
      exact decide_eq_true (hbehind r hr)
    · intro r hr
      rw [decide_eq_true_eq, not_lt]
      exact le_of_next hsorted h hr
  rw [hnarrow, hdrop]
  exact hsplit

end Step

/-! ### Rows of a table -/

section Tables

variable {ι : Type} {k : Row → ι} {t : Table k} {key : Row → κ}

/-- The rows of a query in the order of their keys. -/
def sortedRows (t : Table k) (p : Row → Bool) (key : Row → κ) : List Row :=
  t.selectSorted p fun a b => key a ≤ key b

theorem mem_sortedRows {p : Row → Bool} {r : Row} : r ∈ sortedRows t p key ↔ r ∈ t ∧ p r = true :=
  Table.mem_selectSorted

/-- Rows with keys of their own are in strict order. -/
theorem pairwise_sortedRows (hkey : ∀ r ∈ t, ∀ s ∈ t, key r = key s → r = s) (p : Row → Bool) :
    (sortedRows t p key).Pairwise fun a b => key a < key b := by
  have hle : (sortedRows t p key).Pairwise fun a b => key a ≤ key b :=
    List.pairwise_insertionSort _ _
  have hnodup : (sortedRows t p key).Nodup := List.Nodup.of_map k (t.nodup_map_selectSorted p _)
  have hne : (sortedRows t p key).Pairwise fun a b => key a ≠ key b := by
    refine List.Pairwise.imp_of_mem ?_ hnodup
    intro a b ha hb hab heq
    exact hab (hkey a (mem_sortedRows.mp ha).1 b (mem_sortedRows.mp hb).1 heq)
  exact (hle.and hne).imp fun h => lt_of_le_of_ne h.1 h.2

/-- A further condition in a query leaves the rows that meet it. -/
theorem sortedRows_filter (hkey : ∀ r ∈ t, ∀ s ∈ t, key r = key s → r = s) {p q c : Row → Bool}
    (hq : ∀ r, q r = true ↔ p r = true ∧ c r = true) :
    sortedRows t q key = (sortedRows t p key).filter c := by
  have hleft := pairwise_sortedRows hkey q
  have hright := (pairwise_sortedRows hkey p).sublist (List.filter_sublist (p := c))
  have hperm : (sortedRows t q key).Perm ((sortedRows t p key).filter c) := by
    refine (List.perm_ext_iff_of_nodup ?_ ?_).mpr fun r => ?_
    · exact hleft.imp fun h => ne_of_apply_ne key (ne_of_lt h)
    · exact hright.imp fun h => ne_of_apply_ne key (ne_of_lt h)
    · rw [mem_sortedRows, List.mem_filter, mem_sortedRows, hq]
      exact and_assoc.symm
  refine List.Perm.eq_of_pairwise ?_ hleft hright hperm
  intro a b _ _ hab hba
  exact absurd hba (lt_asymm hab)

/-- A condition on the position in a query leaves what lies behind it. -/
theorem sortedRows_behind (hkey : ∀ r ∈ t, ∀ s ∈ t, key r = key s → r = s) {p q : Row → Bool}
    {pos : Option κ} (hq : ∀ r, q r = true ↔ p r = true ∧ Behind pos (key r)) :
    sortedRows t q key = rest key (sortedRows t p key) pos :=
  sortedRows_filter hkey fun r => by rw [hq, decide_eq_true_eq]

end Tables

/-! ### Readers -/

/-- The pages a reader gets who starts at a position, each with the snapshot it was answered from.
There is one snapshot for each request; a reader who runs out of them has not come to an end. -/
def follow (answer : σ → Option κ → Page Row κ) : List σ → Option κ → Option (List (σ × Page Row κ))
  | [], _ => none
  | s :: ss, pos =>
      match (answer s pos).next with
      | none => some [(s, answer s pos)]
      | some k => (follow answer ss (some k)).map ((s, answer s pos) :: ·)

/-- The rows on the pages that a reader got. -/
def shown (pages : List (σ × Page Row κ)) : List Row := pages.flatMap fun p => p.2.rows

omit [LinearOrder κ] in
/-- A reader who comes to an end gets the page at the position, and then nothing, or what a reader
gets who starts at the next position. -/
theorem follow_cons {answer : σ → Option κ → Page Row κ} {s : σ} {ss : List σ} {pos : Option κ}
    {pages : List (σ × Page Row κ)} (h : follow answer (s :: ss) pos = some pages) :
    ((answer s pos).next = none ∧ pages = [(s, answer s pos)]) ∨
      ∃ k tail, (answer s pos).next = some k ∧ follow answer ss (some k) = some tail ∧
        pages = (s, answer s pos) :: tail := by
  unfold follow at h
  split at h
  next hnone =>
    cases h
    exact .inl ⟨hnone, rfl⟩
  next k hnext =>
    obtain ⟨tail, htail, rfl⟩ := Option.map_eq_some_iff.mp h
    exact .inr ⟨k, tail, hnext, htail, rfl⟩

omit [LinearOrder κ] in
/-- Every page is the answer for a snapshot and a position. -/
theorem exists_of_mem_follow {answer : σ → Option κ → Page Row κ} {ss : List σ} {pos : Option κ}
    {pages : List (σ × Page Row κ)} (h : follow answer ss pos = some pages) :
    ∀ p ∈ pages, p.1 ∈ ss ∧ ∃ q, p.2 = answer p.1 q := by
  induction ss generalizing pos pages with
  | nil => cases h
  | cons s ss ih =>
      intro p hp
      rcases follow_cons h with ⟨_, rfl⟩ | ⟨k, tail, _, htail, rfl⟩
      · rw [List.mem_singleton] at hp
        exact ⟨by rw [hp]; exact List.mem_cons_self, pos, by rw [hp]⟩
      · rw [List.mem_cons] at hp
        rcases hp with rfl | hp
        · exact ⟨List.mem_cons_self, pos, rfl⟩
        · obtain ⟨hs, hq⟩ := ih htail p hp
          exact ⟨List.mem_cons_of_mem s hs, hq⟩

section Reader

variable {key : Row → κ} {limit : ℕ} {rowsOf : σ → List Row}

/-- Every row that is shown comes from a snapshot and lies behind the start. -/
theorem follow_sound {ss : List σ} {pos : Option κ} {pages : List (σ × Page Row κ)}
    (h : follow (fun s => page key limit (rowsOf s)) ss pos = some pages) :
    ∀ r ∈ shown pages, (∃ s ∈ ss, r ∈ rowsOf s) ∧ Behind pos (key r) := by
  induction ss generalizing pos pages with
  | nil => cases h
  | cons s ss ih =>
      intro r hr
      rcases follow_cons h with ⟨_, rfl⟩ | ⟨k, tail, hnext, htail, rfl⟩
      · simp only [shown, List.flatMap_cons, List.flatMap_nil, List.append_nil] at hr
        have hpage := page_rows_subset hr
        exact ⟨⟨s, List.mem_cons_self, hpage.1⟩, hpage.2⟩
      · rw [shown, List.flatMap_cons, List.mem_append] at hr
        rcases hr with hr | hr
        · have hpage := page_rows_subset hr
          exact ⟨⟨s, List.mem_cons_self, hpage.1⟩, hpage.2⟩
        · obtain ⟨⟨s', hs', hrow⟩, hk⟩ := ih htail r hr
          obtain ⟨last, hlast, hkey⟩ := exists_of_next hnext
          refine ⟨⟨s', List.mem_cons_of_mem s hs', hrow⟩, fun p hp => ?_⟩
          calc p < key last := (page_rows_subset hlast).2 p hp
            _ = k := hkey
            _ < key r := behind_some.mp hk

/-- The rows are shown in the order of their keys, whatever was written between the requests. -/
theorem follow_pairwise {ss : List σ} {pos : Option κ} {pages : List (σ × Page Row κ)}
    (hsorted : ∀ s ∈ ss, (rowsOf s).Pairwise fun a b => key a < key b)
    (h : follow (fun s => page key limit (rowsOf s)) ss pos = some pages) :
    (shown pages).Pairwise fun a b => key a < key b := by
  induction ss generalizing pos pages with
  | nil => cases h
  | cons s ss ih =>
      have hs := hsorted s List.mem_cons_self
      rcases follow_cons h with ⟨_, rfl⟩ | ⟨k, tail, hnext, htail, rfl⟩
      · simpa [shown] using pairwise_page hs
      · rw [shown, List.flatMap_cons, List.pairwise_append]
        refine ⟨pairwise_page hs,
          ih (fun s' hs' => hsorted s' (List.mem_cons_of_mem s hs')) htail, ?_⟩
        intro a ha b hb
        calc key a ≤ k := le_of_next hs hnext ha
          _ < key b := behind_some.mp (follow_sound htail b hb).2

/-- A key that every snapshot has a row for is shown. -/
theorem follow_mem {ss : List σ} {pos : Option κ} {pages : List (σ × Page Row κ)}
    (hlimit : 0 < limit) (hsorted : ∀ s ∈ ss, (rowsOf s).Pairwise fun a b => key a < key b)
    (h : follow (fun s => page key limit (rowsOf s)) ss pos = some pages) {k : κ}
    (hk : ∀ s ∈ ss, ∃ r ∈ rowsOf s, key r = k) (hpos : Behind pos k) :
    ∃ r ∈ shown pages, key r = k := by
  induction ss generalizing pos pages with
  | nil => cases h
  | cons s ss ih =>
      obtain ⟨r, hr, hkey⟩ := hk s List.mem_cons_self
      have hrest : r ∈ rest key (rowsOf s) pos := mem_rest.mpr ⟨hr, hkey.symm ▸ hpos⟩
      rcases follow_cons h with ⟨hlast, rfl⟩ | ⟨next, tail, hnext, htail, rfl⟩
      · rw [← page_rows_of_last hlast hlimit] at hrest
        exact ⟨r, List.mem_append_left _ hrest, hkey⟩
      · rw [rest_eq_append (hsorted s List.mem_cons_self) hnext, List.mem_append] at hrest
        rcases hrest with hshown | hleft
        · exact ⟨r, List.mem_append_left _ hshown, hkey⟩
        · obtain ⟨r', hr', hkey'⟩ :=
            ih (fun s' hs' => hsorted s' (List.mem_cons_of_mem s hs')) htail
            (fun s' hs' => hk s' (List.mem_cons_of_mem s hs')) (hkey ▸ (mem_rest.mp hleft).2)
          exact ⟨r', List.mem_append_right _ hr', hkey'⟩

/-- Rows in strict order of their keys hold a key once. -/
theorem length_filter_eq_one {q : Row → Bool} {rows : List Row} {k : κ}
    (hsorted : rows.Pairwise fun a b => key a < key b) (hk : ∃ r ∈ rows, key r = k)
    (hq : ∀ r ∈ rows, q r = true ↔ key r = k) : (rows.filter q).length = 1 := by
  induction rows with
  | nil =>
      obtain ⟨r, hr, _⟩ := hk
      cases hr
  | cons a rows ih =>
      rw [List.pairwise_cons] at hsorted
      have ha := hq a List.mem_cons_self
      by_cases heq : key a = k
      · rw [List.filter_cons_of_pos (ha.mpr heq), List.filter_eq_nil_iff.mpr]
        · rfl
        · intro r hr hqr
          have hlt := hsorted.1 r hr
          rw [heq, (hq r (List.mem_cons_of_mem a hr)).mp hqr] at hlt
          exact lt_irrefl k hlt
      · rw [List.filter_cons_of_neg fun hqa => heq (ha.mp hqa)]
        refine ih hsorted.2 ?_ fun r hr => hq r (List.mem_cons_of_mem a hr)
        obtain ⟨r, hr, hkey⟩ := hk
        rw [List.mem_cons] at hr
        rcases hr with rfl | hr
        · exact absurd hkey heq
        · exact ⟨r, hr, hkey⟩

/-- Over one snapshot a reader comes to an end and gets all that is left, in order. -/
theorem exists_follow_rest (hlimit : 0 < limit) {s : σ}
    (hsorted : (rowsOf s).Pairwise fun a b => key a < key b) {n : ℕ} {pos : Option κ}
    (hn : (rest key (rowsOf s) pos).length < n) :
    ∃ pages, follow (fun s => page key limit (rowsOf s)) (List.replicate n s) pos = some pages ∧
      shown pages = rest key (rowsOf s) pos := by
  induction n generalizing pos with
  | zero => omega
  | succ n ih =>
      cases hnext : (page key limit (rowsOf s) pos).next with
      | none =>
          refine ⟨[(s, page key limit (rowsOf s) pos)], ?_, ?_⟩
          · simp only [List.replicate_succ, follow, hnext]
          · simpa [shown] using page_rows_of_last hnext hlimit
      | some k =>
          have hsplit := rest_eq_append hsorted hnext
          obtain ⟨init, last, hrows, _⟩ := page_rows_of_next hnext
          have hlength : (rest key (rowsOf s) (some k)).length < n := by
            rw [hsplit, hrows, List.length_append, List.length_append, List.length_singleton] at hn
            omega
          obtain ⟨tail, htail, hshown⟩ := ih hlength
          refine ⟨(s, page key limit (rowsOf s) pos) :: tail, ?_, ?_⟩
          · simp only [List.replicate_succ, follow, hnext, htail, Option.map_some]
          · rw [shown, List.flatMap_cons, hsplit, ← hshown, shown]

/-- Over one snapshot a reader who makes more requests than there are rows comes to an end and
gets all the rows, in order. -/
theorem exists_follow (hlimit : 0 < limit) {s : σ}
    (hsorted : (rowsOf s).Pairwise fun a b => key a < key b) {n : ℕ} (hn : (rowsOf s).length < n) :
    ∃ pages, follow (fun s => page key limit (rowsOf s)) (List.replicate n s) none = some pages ∧
      shown pages = rowsOf s := by
  have hall := rest_none key (rowsOf s)
  rw [← hall] at hn
  obtain ⟨pages, hpages, hshown⟩ := exists_follow_rest hlimit hsorted hn
  exact ⟨pages, hpages, hshown.trans hall⟩

end Reader

/-! ### Readers of a service -/

section Service

variable {C E P : Type}

/-- The answers a reader gets who asks with the cursor of the answer before. -/
def browse (serve : σ → Option C → Except E P) (next : P → Option C) : List σ → Option C →
    Option (List P)
  | [], _ => none
  | s :: ss, cursor =>
      match serve s cursor with
      | .error _ => none
      | .ok p =>
          match next p with
          | none => some [p]
          | some c => (browse serve next ss (some c)).map (p :: ·)

omit [LinearOrder κ] in
/-- A service that answers a position from which a reader can continue with the rendered page. -/
theorem browse_eq {serve : σ → Option C → Except E P} {next : P → Option C}
    {answer : σ → Option κ → Page Row κ} {encode : κ → C} {render : σ → Page Row κ → P}
    {valid : κ → Prop} {ss : List σ}
    (hserve : ∀ s ∈ ss, ∀ pos : Option κ, (∀ k ∈ pos, valid k) →
      serve s (pos.map encode) = .ok (render s (answer s pos)))
    (hnext : ∀ s p, next (render s p) = p.next.map encode)
    (hvalid : ∀ s ∈ ss, ∀ pos, ∀ k ∈ (answer s pos).next, valid k) {pos : Option κ}
    (hpos : ∀ k ∈ pos, valid k) :
    browse serve next ss (pos.map encode) =
      (follow answer ss pos).map (List.map fun p => render p.1 p.2) := by
  induction ss generalizing pos with
  | nil => rfl
  | cons s ss ih =>
      have hpage := hserve s List.mem_cons_self pos hpos
      cases hk : (answer s pos).next with
      | none => simp only [browse, hpage, hnext, follow, hk, Option.map_none, Option.map_some,
          List.map_cons, List.map_nil]
      | some k =>
          have hk' : ∀ k' ∈ some k, valid k' := by
            rw [← hk]
            exact hvalid s List.mem_cons_self pos
          have hrest := ih (fun s' hs' => hserve s' (List.mem_cons_of_mem s hs'))
            (fun s' hs' => hvalid s' (List.mem_cons_of_mem s hs')) hk'
          rw [Option.map_some] at hrest
          simp only [browse, hpage, hnext, follow, hk, Option.map_some, hrest, Option.map_map]
          cases follow answer ss (some k) with
          | none => rfl
          | some pages => rfl

/-- What a service promises that shows the rows of a listing: it answers a position with the page
behind it, and every row gives a position it can continue from. -/
structure Renders (key : Row → κ) (limit : ℕ) (rowsOf : σ → List Row)
    (serve : σ → Option C → Except E P) (next : P → Option C) (encode : κ → C)
    (render : σ → Page Row κ → P) (ss : List σ) : Prop where
  limit_pos : 0 < limit
  sorted : ∀ s ∈ ss, (rowsOf s).Pairwise fun a b => key a < key b
  next_eq : ∀ s p, next (render s p) = p.next.map encode
  serve_eq : ∀ s ∈ ss, ∀ pos : Option κ, (∀ k ∈ pos, ∃ s ∈ ss, ∃ r ∈ rowsOf s, key r = k) →
    serve s (pos.map encode) = .ok (render s (page key limit (rowsOf s) pos))

section Renders

variable {key : Row → κ} {limit : ℕ} {rowsOf : σ → List Row} {serve : σ → Option C → Except E P}
  {next : P → Option C} {encode : κ → C} {render : σ → Page Row κ → P} {ss : List σ} {β : Type}
  {items : P → List β} {f : Row → β}

theorem Renders.browse_eq (h : Renders key limit rowsOf serve next encode render ss) :
    browse serve next ss none =
      (follow (fun s => page key limit (rowsOf s)) ss none).map
        (List.map fun p => render p.1 p.2) := by
  have hnext : ∀ s ∈ ss, ∀ pos, ∀ k ∈ (page key limit (rowsOf s) pos).next, ∃ s ∈ ss,
      ∃ r ∈ rowsOf s, key r = k := by
    intro s hs pos k hk
    obtain ⟨r, hr, hkey⟩ := exists_of_next hk
    exact ⟨s, hs, r, (page_rows_subset hr).1, hkey⟩
  have hstart : ∀ k ∈ (none : Option κ), ∃ s ∈ ss, ∃ r ∈ rowsOf s, key r = k := by
    intro k hk
    cases hk
  exact Keyset.browse_eq h.serve_eq h.next_eq hnext hstart

omit [LinearOrder κ] in
theorem flatMap_render (hitems : ∀ s ∈ ss, ∀ p, items (render s p) = p.rows.map f)
    {pages : List (σ × Page Row κ)} (hpages : ∀ p ∈ pages, p.1 ∈ ss) :
    (pages.map fun p => render p.1 p.2).flatMap items = (shown pages).map f := by
  rw [List.flatMap_map, shown, List.map_flatMap]
  exact List.flatMap_congr fun p hp => hitems p.1 (hpages p hp) p.2

/-- Over one snapshot a client gets all the rows, in order, on pages of at most `limit` rows. -/
theorem Renders.exists_browse {s : σ} {n : ℕ}
    (h : Renders key limit rowsOf serve next encode render (List.replicate n s))
    (hitems : ∀ p, items (render s p) = p.rows.map f) (hn : (rowsOf s).length < n) :
    ∃ pages, browse serve next (List.replicate n s) none = some pages ∧
      pages.flatMap items = (rowsOf s).map f ∧ ∀ p ∈ pages, ∃ q, p = render s q ∧
        q.rows.length ≤ limit := by
  have hs : s ∈ List.replicate n s := List.mem_replicate.mpr ⟨by omega, rfl⟩
  obtain ⟨pages, hpages, hshown⟩ := exists_follow h.limit_pos (h.sorted s hs) hn
  refine ⟨pages.map fun p => render p.1 p.2, ?_, ?_, ?_⟩
  · rw [h.browse_eq, hpages, Option.map_some]
  · have hall : ∀ s' ∈ List.replicate n s, ∀ p, items (render s' p) = p.rows.map f := by
      intro s' hs' p
      rw [List.eq_of_mem_replicate hs']
      exact hitems p
    rw [flatMap_render hall fun p hp => (exists_of_mem_follow hpages p hp).1, hshown]
  · intro p hp
    obtain ⟨⟨s', q⟩, hq, rfl⟩ := List.mem_map.mp hp
    obtain ⟨hs', pos, hpage⟩ := exists_of_mem_follow hpages (s', q) hq
    refine ⟨q, by rw [List.eq_of_mem_replicate hs'], ?_⟩
    dsimp only at hpage
    rw [hpage]
    exact page_length_le

/-- A row that keeps its key while a client reads is listed exactly once. -/
theorem Renders.browse_once (h : Renders key limit rowsOf serve next encode render ss)
    (hitems : ∀ s ∈ ss, ∀ p, items (render s p) = p.rows.map f) {pages : List P}
    (hpages : browse serve next ss none = some pages) {k : κ}
    (hk : ∀ s ∈ ss, ∃ r ∈ rowsOf s, key r = k) {g : β → Bool}
    (hg : ∀ s ∈ ss, ∀ r ∈ rowsOf s, g (f r) = true ↔ key r = k) :
    ((pages.flatMap items).filter g).length = 1 := by
  rw [h.browse_eq] at hpages
  obtain ⟨l, hl, rfl⟩ := Option.map_eq_some_iff.mp hpages
  rw [flatMap_render hitems fun p hp => (exists_of_mem_follow hl p hp).1, List.filter_map,
    List.length_map]
  refine length_filter_eq_one (follow_pairwise h.sorted hl)
    (follow_mem h.limit_pos h.sorted hl hk (behind_none k)) fun r hr => ?_
  obtain ⟨⟨s, hs, hrow⟩, -⟩ := follow_sound hl r hr
  exact hg s hs r hrow

end Renders

end Service

end Keyset

end Foundation
