import Mathlib.Data.List.Chain
import ResendConversation.JsString

/-! # Letter case

`toLowerCase` of the source language.  The string is read as code points, every code point is
replaced by its lower-case mapping, a capital sigma by the form its neighbours ask for, and the
result is written back as code units.  The mapping is data of the Unicode character database;
`CaseData` holds it together with what the database promises about it. -/

namespace ResendConversation

open JsString

/-! ### Code points -/

def isLeadSurrogate (c : UInt16) : Bool := 0xD800 ≤ c && c ≤ 0xDBFF

def isTrailSurrogate (c : UInt16) : Bool := 0xDC00 ≤ c && c ≤ 0xDFFF

/-- The code point of a surrogate pair. -/
def surrogatePair (lead trail : UInt16) : ℕ :=
  0x10000 + (lead.toNat - 0xD800) * 0x400 + (trail.toNat - 0xDC00)

/-- The code points of a string; a surrogate without a partner stands for itself. -/
def codePoints : JsString → List ℕ
  | [] => []
  | [c] => [c.toNat]
  | c :: d :: s =>
      if isLeadSurrogate c && isTrailSurrogate d then surrogatePair c d :: codePoints s
      else c.toNat :: codePoints (d :: s)

/-- The code units of a code point. -/
def fromCodePoint (n : ℕ) : JsString :=
  if n < 0x10000 then [n.toUInt16]
  else [(0xD800 + (n - 0x10000) / 0x400).toUInt16, (0xDC00 + (n - 0x10000) % 0x400).toUInt16]

/-- A lead surrogate without a partner. -/
def IsLead (n : ℕ) : Prop := 0xD800 ≤ n ∧ n ≤ 0xDBFF

/-- A trail surrogate without a partner. -/
def IsTrail (n : ℕ) : Prop := 0xDC00 ≤ n ∧ n ≤ 0xDFFF

theorem isLeadSurrogate_iff {c : UInt16} : isLeadSurrogate c = true ↔ IsLead c.toNat := by
  simp [isLeadSurrogate, IsLead, UInt16.le_iff_toNat_le]

theorem isTrailSurrogate_iff {c : UInt16} : isTrailSurrogate c = true ↔ IsTrail c.toNat := by
  simp [isTrailSurrogate, IsTrail, UInt16.le_iff_toNat_le]

theorem toNat_toUInt16 {n : ℕ} (h : n < 0x10000) : n.toUInt16.toNat = n := by
  simp only [Nat.toUInt16_eq, UInt16.toNat_ofNat']
  exact Nat.mod_eq_of_lt h

/-- Code points that a string can consist of: no lone lead stands before a lone trail. -/
structure Settled (l : List ℕ) : Prop where
  bounded : ∀ n ∈ l, n < 0x110000
  unpaired : l.IsChain fun a b => ¬(IsLead a ∧ IsTrail b)

theorem codePoints_cons_pair {c d : UInt16} (hc : IsLead c.toNat) (hd : IsTrail d.toNat)
    (s : JsString) :
    codePoints (c :: d :: s) = surrogatePair c d :: codePoints s := by
  simp [codePoints, isLeadSurrogate_iff.mpr hc, isTrailSurrogate_iff.mpr hd]

theorem codePoints_cons {c : UInt16} {s : JsString}
    (h : ∀ d ∈ s.head?, ¬(IsLead c.toNat ∧ IsTrail d.toNat)) :
    codePoints (c :: s) = c.toNat :: codePoints s := by
  cases s with
  | nil => rfl
  | cons d s =>
      have hnot := h d (by simp)
      rw [codePoints, if_neg]
      rw [Bool.and_eq_true, isLeadSurrogate_iff, isTrailSurrogate_iff]
      exact hnot

/-- A pair is a code point beyond the code units. -/
theorem surrogatePair_bounds {c d : UInt16} (hc : IsLead c.toNat) (hd : IsTrail d.toNat) :
    0x10000 ≤ surrogatePair c d ∧ surrogatePair c d < 0x110000 := by
  unfold IsLead at hc
  unfold IsTrail at hd
  unfold surrogatePair
  omega

theorem fromCodePoint_pair {c d : UInt16} (hc : IsLead c.toNat) (hd : IsTrail d.toNat) :
    fromCodePoint (surrogatePair c d) = [c, d] := by
  have hbounds := surrogatePair_bounds hc hd
  unfold IsLead at hc
  unfold IsTrail at hd
  have hlead : 0xD800 + (surrogatePair c d - 0x10000) / 0x400 = c.toNat := by
    unfold surrogatePair
    omega
  have htrail : 0xDC00 + (surrogatePair c d - 0x10000) % 0x400 = d.toNat := by
    unfold surrogatePair
    omega
  rw [fromCodePoint, if_neg (by omega), hlead, htrail]
  simp

theorem fromCodePoint_unit (c : UInt16) : fromCodePoint c.toNat = [c] := by
  rw [fromCodePoint, if_pos c.toNat_lt]
  simp

/-- Writing the code points of a string gives the string back. -/
theorem flatMap_codePoints (s : JsString) : (codePoints s).flatMap fromCodePoint = s := by
  fun_induction codePoints s with
  | case1 => rfl
  | case2 c => simp [fromCodePoint_unit]
  | case3 c d s h ih =>
      rw [Bool.and_eq_true, isLeadSurrogate_iff, isTrailSurrogate_iff] at h
      rw [List.flatMap_cons, fromCodePoint_pair h.1 h.2, ih]
      rfl
  | case4 c d s _ ih =>
      rw [List.flatMap_cons, fromCodePoint_unit, ih]
      rfl

/-- The code points of a string start with its first code unit or with a pair. -/
theorem head_codePoints {s : JsString} {n : ℕ} (h : (codePoints s).head? = some n) :
    (∃ c ∈ s.head?, n = c.toNat) ∨ 0x10000 ≤ n := by
  fun_cases codePoints s with
  | case1 => simp [codePoints] at h
  | case2 c =>
      simp only [codePoints, List.head?_cons, Option.some.injEq] at h
      exact .inl ⟨c, by simp, h.symm⟩
  | case3 c d s hpair =>
      rw [codePoints, if_pos hpair, List.head?_cons, Option.some.injEq] at h
      rw [Bool.and_eq_true, isLeadSurrogate_iff, isTrailSurrogate_iff] at hpair
      exact .inr (h ▸ (surrogatePair_bounds hpair.1 hpair.2).1)
  | case4 c d s hpair =>
      rw [codePoints, if_neg hpair, List.head?_cons, Option.some.injEq] at h
      exact .inl ⟨c, by simp, h.symm⟩

theorem settled_codePoints (s : JsString) : Settled (codePoints s) := by
  fun_induction codePoints s with
  | case1 => exact ⟨by simp, List.isChain_nil⟩
  | case2 c =>
      have := c.toNat_lt
      refine ⟨fun n hn => ?_, List.isChain_singleton _⟩
      rw [List.mem_singleton] at hn
      omega
  | case3 c d s h ih =>
      rw [Bool.and_eq_true, isLeadSurrogate_iff, isTrailSurrogate_iff] at h
      have hbounds := surrogatePair_bounds h.1 h.2
      refine ⟨fun n hn => ?_, List.isChain_cons.mpr ⟨fun m _ hm => ?_, ih.unpaired⟩⟩
      · rcases List.mem_cons.mp hn with hn | hn
        · rw [hn]
          exact hbounds.2
        · exact ih.bounded n hn
      · have := hm.1.2
        omega
  | case4 c d s h ih =>
      have hlt := c.toNat_lt
      refine ⟨fun n hn => ?_, List.isChain_cons.mpr ⟨fun m hm hlone => ?_, ih.unpaired⟩⟩
      · rcases List.mem_cons.mp hn with rfl | hn
        · omega
        · exact ih.bounded n hn
      · rcases head_codePoints hm with ⟨e, he, rfl⟩ | hm
        · rw [List.head?_cons, Option.mem_some_iff] at he
          subst he
          exact h (by rw [Bool.and_eq_true, isLeadSurrogate_iff, isTrailSurrogate_iff]; exact hlone)
        · have := hlone.2.2
          omega

/-- Reading what was written gives the code points back. -/
theorem codePoints_flatMap {l : List ℕ} (h : Settled l) :
    codePoints (l.flatMap fromCodePoint) = l := by
  induction l with
  | nil => rfl
  | cons n l ih =>
      obtain ⟨hhead, htail⟩ := List.isChain_cons.mp h.unpaired
      have ih := ih ⟨fun m hm => h.bounded m (List.mem_cons_of_mem n hm), htail⟩
      have hn := h.bounded n (by simp)
      rw [List.flatMap_cons]
      by_cases hsmall : n < 0x10000
      · have hunit : fromCodePoint n = [n.toUInt16] := by rw [fromCodePoint, if_pos hsmall]
        rw [hunit, List.singleton_append, codePoints_cons, ih, toNat_toUInt16 hsmall]
        intro d hd hlone
        rw [toNat_toUInt16 hsmall] at hlone
        cases l with
        | nil => simp at hd
        | cons m l =>
            have hm := h.bounded m (by simp)
            refine hhead m (by simp) ⟨hlone.1, ?_⟩
            rw [List.flatMap_cons] at hd
            by_cases hsmall' : m < 0x10000
            · rw [fromCodePoint, if_pos hsmall'] at hd
              simp only [List.singleton_append, List.head?_cons, Option.mem_some_iff] at hd
              rw [← toNat_toUInt16 hsmall', hd]
              exact hlone.2
            · rw [fromCodePoint, if_neg hsmall'] at hd
              simp only [List.cons_append, List.head?_cons, Option.mem_some_iff] at hd
              have htrail := hlone.2.1
              rw [← hd, toNat_toUInt16 (by omega)] at htrail
              omega
      · have hunits : fromCodePoint n = [(0xD800 + (n - 0x10000) / 0x400).toUInt16,
            (0xDC00 + (n - 0x10000) % 0x400).toUInt16] := by rw [fromCodePoint, if_neg hsmall]
        have hlead : (0xD800 + (n - 0x10000) / 0x400).toUInt16.toNat =
            0xD800 + (n - 0x10000) / 0x400 :=
          toNat_toUInt16 (by omega)
        have htrail : (0xDC00 + (n - 0x10000) % 0x400).toUInt16.toNat =
            0xDC00 + (n - 0x10000) % 0x400 :=
          toNat_toUInt16 (by omega)
        rw [hunits, List.cons_append, List.singleton_append, codePoints_cons_pair, ih]
        · refine congrArg (· :: l) ?_
          unfold surrogatePair
          rw [hlead, htrail]
          omega
        · rw [hlead]
          exact ⟨by omega, by omega⟩
        · rw [htrail]
          exact ⟨by omega, by omega⟩

/-- A code unit that is not a surrogate separates the code points before it from those after
it. -/
theorem codePoints_append_cons {c : UInt16} (h : ¬IsLead c.toNat ∧ ¬IsTrail c.toNat)
    (a b : JsString) :
    codePoints (a ++ c :: b) = codePoints a ++ c.toNat :: codePoints b := by
  have hcons : codePoints (c :: b) = c.toNat :: codePoints b :=
    codePoints_cons fun _ _ hlone => h.1 hlone.1
  fun_induction codePoints a with
  | case1 => exact hcons
  | case2 d =>
      rw [List.singleton_append, codePoints_cons, hcons]
      · rfl
      · intro e he hlone
        rw [List.head?_cons, Option.mem_some_iff] at he
        exact h.2 (he ▸ hlone.2)
  | case3 d e a hpair ih =>
      rw [Bool.and_eq_true, isLeadSurrogate_iff, isTrailSurrogate_iff] at hpair
      rw [List.cons_append, List.cons_append, codePoints_cons_pair hpair.1 hpair.2, ih]
      rfl
  | case4 d e a hpair ih =>
      rw [Bool.and_eq_true, isLeadSurrogate_iff, isTrailSurrogate_iff] at hpair
      rw [List.cons_append, codePoints_cons, ih]
      · rfl
      · intro f hf
        rw [List.cons_append, List.head?_cons, Option.mem_some_iff] at hf
        exact hf ▸ hpair

/-- In a string of ASCII characters every code unit is a code point. -/
theorem codePoints_ascii {s : JsString} (h : ∀ c ∈ s, c.toNat < 128) :
    codePoints s = s.map UInt16.toNat := by
  induction s with
  | nil => rfl
  | cons c s ih =>
      have hc := h c (by simp)
      rw [codePoints_cons, ih fun d hd => h d (List.mem_cons_of_mem c hd), List.map_cons]
      intro d _ hlone
      have := hlone.1.1
      omega

/-! ### White space -/

/-- A string that neither starts nor ends with white space. -/
structure Trimmed (s : JsString) : Prop where
  head : ∀ c ∈ s.head?, isSpace c = false
  last : ∀ c ∈ s.getLast?, isSpace c = false

theorem trimStart_eq {s : JsString} (h : ∀ c ∈ s.head?, isSpace c = false) : trimStart s = s := by
  cases s with
  | nil => rfl
  | cons c s =>
      have hc := h c (by simp)
      rw [trimStart, List.dropWhile_cons_of_neg (by simp [hc])]

theorem trimEnd_eq {s : JsString} (h : ∀ c ∈ s.getLast?, isSpace c = false) : trimEnd s = s := by
  have hhead : ∀ c ∈ s.reverse.head?, isSpace c = false := by
    rw [List.head?_reverse]
    exact h
  rw [trimEnd, ← trimStart, trimStart_eq hhead, List.reverse_reverse]

theorem Trimmed.trim {s : JsString} (h : Trimmed s) : JsString.trim s = s := by
  rw [JsString.trim, trimStart_eq h.head, trimEnd_eq h.last]

theorem head_trimStart {s : JsString} : ∀ c ∈ (trimStart s).head?, isSpace c = false := by
  intro c hc
  have h := List.head?_dropWhile_not isSpace s
  rw [trimStart, Option.mem_def] at hc
  rw [hc] at h
  simpa using h

theorem last_trimEnd {s : JsString} : ∀ c ∈ (trimEnd s).getLast?, isSpace c = false := by
  rw [trimEnd, List.getLast?_reverse]
  exact head_trimStart

/-- What `trimEnd` leaves is a prefix, so it starts as before or is empty. -/
theorem head_trimEnd {s : JsString} : ∀ c ∈ (trimEnd s).head?, c ∈ s.head? := by
  intro c hc
  have hbegins : trimEnd s <+: s := by
    have h := List.dropWhile_suffix (l := s.reverse) isSpace
    exact List.reverse_suffix.mp (by rw [trimEnd, List.reverse_reverse]; exact h)
  obtain ⟨t, ht⟩ := hbegins
  cases hcases : trimEnd s with
  | nil =>
      rw [hcases] at hc
      cases hc
  | cons d r =>
      rw [hcases] at hc ht
      rw [← ht]
      exact hc

theorem trimmed_trim (s : JsString) : Trimmed (JsString.trim s) where
  head c hc := head_trimStart c (head_trimEnd c hc)
  last := last_trimEnd

theorem trim_trim (s : JsString) : JsString.trim (JsString.trim s) = JsString.trim s :=
  (trimmed_trim s).trim

theorem trim_subset (s : JsString) : ∀ c ∈ JsString.trim s, c ∈ s := by
  intro c hc
  have hend : c ∈ trimStart s := by
    have h := (List.dropWhile_suffix (l := (trimStart s).reverse) isSpace).subset
      (List.mem_reverse.mp (by rw [JsString.trim, trimEnd] at hc; exact hc))
    exact List.mem_reverse.mp h
  exact (List.dropWhile_suffix isSpace).subset hend

/-- White space around a trimmed string is removed. -/
theorem trim_surround {l s r : JsString} (hl : ∀ c ∈ l, isSpace c = true)
    (hr : ∀ c ∈ r, isSpace c = true) (hs : Trimmed s) (hne : s ≠ []) :
    JsString.trim (l ++ s ++ r) = s := by
  have hstart : trimStart (l ++ s ++ r) = s ++ r := by
    rw [trimStart, List.append_assoc, List.dropWhile_append_of_pos hl]
    refine trimStart_eq fun c hc => hs.head c ?_
    cases s with
    | nil => exact absurd rfl hne
    | cons d s => exact hc
  have hend : trimEnd (s ++ r) = s := by
    rw [trimEnd, List.reverse_append,
      List.dropWhile_append_of_pos fun c hc => hr c (List.mem_reverse.mp hc)]
    exact trimEnd_eq hs.last
  rw [JsString.trim, hstart, hend]

/-- A code point that is white space. -/
def isSpacePoint (n : ℕ) : Bool := n < 0x10000 && isSpace n.toUInt16

theorem isSpacePoint_bounds {n : ℕ} (h : isSpacePoint n = true) :
    n ≤ 32 ∨ n = 160 ∨ 0x1680 ≤ n := by
  rw [isSpacePoint, Bool.and_eq_true, decide_eq_true_eq] at h
  obtain ⟨hlt, h⟩ := h
  simp only [isSpace, Bool.or_eq_true, Bool.and_eq_true, decide_eq_true_eq, beq_iff_eq,
    UInt16.le_iff_toNat_le, ← UInt16.toNat_inj, toNat_toUInt16 hlt] at h
  simp at h
  omega

/-! ### The mapping -/

def capitalSigma : ℕ := 0x3A3
def smallSigma : ℕ := 0x3C3
def finalSigma : ℕ := 0x3C2

/-- The letter-case data of the Unicode character database: the lower-case mapping of every code
point (its context-free part) and the two properties that decide the form of a sigma.  The other
fields are facts about these tables. -/
structure CaseData where
  lowercaseMapping : ℕ → List ℕ
  cased : ℕ → Bool
  caseIgnorable : ℕ → Bool
  /-- Of the ASCII characters only the capital letters change. -/
  ascii : ∀ n < 128, lowercaseMapping n = [if 65 ≤ n ∧ n ≤ 90 then n + 32 else n]
  /-- Every code point is mapped to something. -/
  nonempty : ∀ n, lowercaseMapping n ≠ []
  /-- A mapping yields code points. -/
  bounded : ∀ n m, n < 0x110000 → m ∈ lowercaseMapping n → m < 0x110000
  /-- A surrogate is the mapping of itself, and of nothing else. -/
  surrogate : ∀ n m, m ∈ lowercaseMapping n → 0xD800 ≤ m → m ≤ 0xDFFF → lowercaseMapping n = [n]
  /-- What a mapping yields is in lower case. -/
  lowered : ∀ n m, m ∈ lowercaseMapping n → lowercaseMapping m = [m]
  sigma : lowercaseMapping capitalSigma = [smallSigma]
  final : lowercaseMapping finalSigma = [finalSigma]
  /-- White space has no case, and nothing is mapped to it. -/
  space : ∀ n m, m ∈ lowercaseMapping n → isSpacePoint n ∨ isSpacePoint m → m = n

/-- The letters of the Latin and Greek alphabets, without their accented forms. -/
def CaseData.reference : CaseData where
  lowercaseMapping n := [if (65 ≤ n ∧ n ≤ 90) ∨ (0x391 ≤ n ∧ n ≤ 0x3A9) then n + 32 else n]
  cased n := (65 ≤ n && n ≤ 90) || (97 ≤ n && n ≤ 122) || (0x391 ≤ n && n ≤ 0x3C9)
  caseIgnorable n := [39, 46, 58, 94, 96].contains n
  ascii n hn := by
    have hgreek : ¬(0x391 ≤ n ∧ n ≤ 0x3A9) := by omega
    simp [hgreek]
  nonempty n := List.cons_ne_nil _ _
  bounded n m hn hm := by
    rw [List.mem_singleton] at hm
    split at hm <;> omega
  surrogate n m hm := by
    rw [List.mem_singleton] at hm
    intro hlow hhigh
    split at hm
    · omega
    next hn => rw [if_neg hn]
  lowered n m hm := by
    rw [List.mem_singleton] at hm
    rw [List.cons.injEq, if_neg]
    · simp
    · split at hm <;> omega
  sigma := by decide
  final := by decide
  space n m hm h := by
    rw [List.mem_singleton] at hm
    split at hm
    next hn =>
      rcases h with h | h
      · have := isSpacePoint_bounds h
        omega
      · have := isSpacePoint_bounds h
        omega
    next => exact hm

namespace CaseData
variable (u : CaseData)

/-- Whether a cased letter comes next, after letters that case ignores. -/
def nextCased : List ℕ → Bool
  | [] => false
  | n :: l => u.cased n || (u.caseIgnorable n && nextCased l)

/-- The lower-case mapping of a code point between its neighbours; those before it are given in
reverse. -/
def lowerAt (before : List ℕ) (n : ℕ) (after : List ℕ) : List ℕ :=
  if n = capitalSigma then
    if u.nextCased before && !u.nextCased after then [finalSigma] else [smallSigma]
  else u.lowercaseMapping n

def lowerFrom (before : List ℕ) : List ℕ → List ℕ
  | [] => []
  | n :: after => u.lowerAt before n after ++ lowerFrom (n :: before) after

/-- `s.toLowerCase()`. -/
def toLowerCase (s : JsString) : JsString := (u.lowerFrom [] (codePoints s)).flatMap fromCodePoint

/-- Code points that lower-casing leaves alone. -/
def Lowered (l : List ℕ) : Prop := ∀ n ∈ l, u.lowercaseMapping n = [n]

variable {u}

theorem ne_capitalSigma {n : ℕ} (h : u.lowercaseMapping n = [n]) : n ≠ capitalSigma := by
  rintro rfl
  rw [u.sigma] at h
  exact absurd h (by decide)

theorem lowerFrom_of_lowered {l : List ℕ} (h : u.Lowered l) (before : List ℕ) :
    u.lowerFrom before l = l := by
  induction l generalizing before with
  | nil => rfl
  | cons n l ih =>
      have hn := h n (by simp)
      rw [lowerFrom, lowerAt, if_neg (ne_capitalSigma hn), hn,
        ih fun m hm => h m (List.mem_cons_of_mem n hm)]
      rfl

/-- The mapping of a code point in context is its own mapping, or a small sigma of one form. -/
theorem mem_lowerAt {before after : List ℕ} {n m : ℕ} (h : m ∈ u.lowerAt before n after) :
    m ∈ u.lowercaseMapping n ∨ (n = capitalSigma ∧ m = finalSigma) := by
  unfold lowerAt at h
  split at h
  next hn =>
    split at h
    · exact .inr ⟨hn, List.mem_singleton.mp h⟩
    · rw [hn, u.sigma]
      exact .inl h
  · exact .inl h

theorem lowered_lowerFrom (before l : List ℕ) : u.Lowered (u.lowerFrom before l) := by
  induction l generalizing before with
  | nil => exact fun m hm => by cases hm
  | cons n l ih =>
      intro m hm
      rcases List.mem_append.mp hm with hm | hm
      · rcases mem_lowerAt hm with hm | ⟨-, rfl⟩
        · exact u.lowered n m hm
        · exact u.final
      · exact ih _ m hm

theorem lowerAt_ne_nil (before : List ℕ) (n : ℕ) (after : List ℕ) :
    u.lowerAt before n after ≠ [] := by
  unfold lowerAt
  split
  · split
    · exact List.cons_ne_nil _ _
    · exact List.cons_ne_nil _ _
  · exact u.nonempty n

/-- A surrogate in the mapping of a code point is that code point. -/
theorem surrogate_lowerAt {before after : List ℕ} {n m : ℕ} (h : m ∈ u.lowerAt before n after)
    (hm : 0xD800 ≤ m ∧ m ≤ 0xDFFF) : u.lowerAt before n after = [n] ∧ m = n := by
  rcases mem_lowerAt h with hmapped | ⟨-, rfl⟩
  · have hsame := u.surrogate n m hmapped hm.1 hm.2
    have hat : u.lowerAt before n after = [n] := by
      rw [lowerAt, if_neg (ne_capitalSigma hsame), hsame]
    rw [hat] at h
    exact ⟨hat, List.mem_singleton.mp h⟩
  · exact absurd hm.1 (by decide)

theorem settled_lowerFrom {l : List ℕ} (h : Settled l) (before : List ℕ) :
    Settled (u.lowerFrom before l) := by
  induction l generalizing before with
  | nil => exact ⟨(by intro m hm; cases hm), List.isChain_nil⟩
  | cons n l ih =>
      obtain ⟨hhead, htail⟩ := List.isChain_cons.mp h.unpaired
      have hrest := ih ⟨fun m hm => h.bounded m (List.mem_cons_of_mem n hm), htail⟩ (n :: before)
      have hn := h.bounded n (by simp)
      refine ⟨fun m hm => ?_, List.isChain_append.mpr ⟨?_, hrest.unpaired, ?_⟩⟩
      · rcases List.mem_append.mp hm with hm | hm
        · rcases mem_lowerAt hm with hm | ⟨-, rfl⟩
          · exact u.bounded n m hn hm
          · decide
        · exact hrest.bounded m hm
      · -- a mapping with a surrogate in it is a single code point
        by_cases hlead : ∃ m ∈ u.lowerAt before n l, IsLead m
        · obtain ⟨m, hm, hlone⟩ := hlead
          rw [(surrogate_lowerAt hm ⟨hlone.1, hlone.2.trans (by decide)⟩).1]
          exact List.isChain_singleton _
        · have hnone : (u.lowerAt before n l).Pairwise fun a b => ¬(IsLead a ∧ IsTrail b) :=
            List.pairwise_of_forall_mem_list fun a ha _ _ hlone => hlead ⟨a, ha, hlone.1⟩
          exact hnone.isChain
      · intro a ha b hb hlone
        have hla := surrogate_lowerAt (List.mem_of_mem_getLast? ha)
          ⟨hlone.1.1, hlone.1.2.trans (by decide)⟩
        cases l with
        | nil => cases hb
        | cons k l =>
            have hb' : b ∈ u.lowerAt (n :: before) k l := by
              rw [lowerFrom, List.head?_append] at hb
              cases hcase : (u.lowerAt (n :: before) k l).head? with
              | none => exact absurd (List.head?_eq_none_iff.mp hcase) (lowerAt_ne_nil _ _ _)
              | some d =>
                  rw [hcase] at hb
                  cases hb
                  exact List.mem_of_mem_head? hcase
            have hlb := surrogate_lowerAt hb'
              ⟨(by decide : 0xD800 ≤ 0xDC00).trans hlone.2.1, hlone.2.2⟩
            exact hhead k (by simp) ⟨hla.2 ▸ hlone.1, hlb.2 ▸ hlone.2⟩

/-- The code points of a lower-cased string. -/
theorem codePoints_toLowerCase (s : JsString) :
    codePoints (u.toLowerCase s) = u.lowerFrom [] (codePoints s) :=
  codePoints_flatMap (settled_lowerFrom (settled_codePoints s) [])

theorem lowered_toLowerCase (s : JsString) : u.Lowered (codePoints (u.toLowerCase s)) := by
  rw [codePoints_toLowerCase]
  exact lowered_lowerFrom _ _

theorem toLowerCase_of_lowered {s : JsString} (h : u.Lowered (codePoints s)) :
    u.toLowerCase s = s := by
  rw [toLowerCase, lowerFrom_of_lowered h, flatMap_codePoints]

/-- Lower-casing twice is lower-casing once. -/
theorem toLowerCase_toLowerCase (s : JsString) :
    u.toLowerCase (u.toLowerCase s) = u.toLowerCase s :=
  toLowerCase_of_lowered (lowered_toLowerCase s)

/-- The parts of a lower-cased string at a character that is not a surrogate are lower-cased. -/
theorem lowered_append_cons {c : UInt16} (hc : ¬IsLead c.toNat ∧ ¬IsTrail c.toNat)
    {a b : JsString} :
    u.Lowered (codePoints (a ++ c :: b)) ↔
      u.Lowered (codePoints a) ∧ u.lowercaseMapping c.toNat =
    [c.toNat] ∧ u.Lowered (codePoints b) := by
  rw [codePoints_append_cons hc]
  simp only [Lowered, List.mem_append, List.mem_cons]
  constructor
  · intro h
    exact ⟨fun n hn => h n (.inl hn), h _ (.inr (.inl rfl)), fun n hn => h n (.inr (.inr hn))⟩
  · rintro ⟨ha, hc, hb⟩ n (hn | rfl | hn)
    · exact ha n hn
    · exact hc
    · exact hb n hn

theorem lowerFrom_ascii {l : List ℕ} (h : ∀ n ∈ l, n < 128) (before : List ℕ) :
    u.lowerFrom before l = l.map fun n => if 65 ≤ n ∧ n ≤ 90 then n + 32 else n := by
  induction l generalizing before with
  | nil => rfl
  | cons n l ih =>
      have hn := h n (by simp)
      have hsigma : n ≠ capitalSigma := by
        unfold capitalSigma
        omega
      rw [lowerFrom, lowerAt, if_neg hsigma, u.ascii n hn,
        ih fun m hm => h m (List.mem_cons_of_mem n hm)]
      rfl

/-- What lower-casing does to ASCII text. -/
theorem toLowerCase_ascii {s : JsString} (h : ∀ c ∈ s, c < 128) :
    u.toLowerCase s = s.map fun c => if isUpperLetter c then c + 32 else c := by
  have hnat : ∀ c ∈ s, c.toNat < 128 := fun c hc => UInt16.lt_iff_toNat_lt.mp (h c hc)
  rw [toLowerCase, codePoints_ascii hnat, lowerFrom_ascii (by simpa using hnat), List.map_map,
    List.flatMap_map]
  rw [List.map_eq_flatMap]
  refine List.flatMap_congr fun c hc => ?_
  have hc := hnat c hc
  by_cases hupper : isUpperLetter c = true
  · have hbounds : 65 ≤ c.toNat ∧ c.toNat ≤ 90 := by
      simpa [isUpperLetter, UInt16.le_iff_toNat_le] using hupper
    have hadd : (c + 32).toNat = c.toNat + 32 := by
      rw [UInt16.toNat_add]
      exact Nat.mod_eq_of_lt (by simp; omega)
    rw [if_pos hupper, Function.comp_apply, if_pos hbounds, ← hadd, fromCodePoint_unit]
  · have hbounds : ¬(65 ≤ c.toNat ∧ c.toNat ≤ 90) := by
      simpa [isUpperLetter, UInt16.le_iff_toNat_le] using hupper
    rw [if_neg hupper, Function.comp_apply, if_neg hbounds, fromCodePoint_unit]

/-! ### White space of a lower-cased string -/

theorem isSpace_bounds {c : UInt16} (h : isSpace c = true) :
    ¬IsLead c.toNat ∧ ¬IsTrail c.toNat := by
  simp only [isSpace, Bool.or_eq_true, Bool.and_eq_true, decide_eq_true_eq, beq_iff_eq,
    UInt16.le_iff_toNat_le, ← UInt16.toNat_inj] at h
  simp only [IsLead, IsTrail]
  simp at h
  omega

theorem isSpacePoint_toNat (c : UInt16) : isSpacePoint c.toNat = isSpace c := by
  have h := c.toNat_lt
  simp [isSpacePoint, h]

theorem head_codePoints_space {s : JsString} {c : UInt16} (h : isSpace c = true) :
    (codePoints s).head? = some c.toNat ↔ s.head? = some c := by
  constructor
  · intro hhead
    cases hs : codePoints s with
    | nil =>
        rw [hs] at hhead
        cases hhead
    | cons n l =>
        rw [hs, List.head?_cons, Option.some.injEq] at hhead
        rw [← flatMap_codePoints s, hs, hhead, List.flatMap_cons, fromCodePoint_unit]
        rfl
  · intro hhead
    cases s with
    | nil => cases hhead
    | cons d s =>
        cases hhead
        have hsplit := codePoints_append_cons (isSpace_bounds h) [] s
        rw [List.nil_append] at hsplit
        rw [hsplit]
        rfl

theorem last_codePoints_space {s : JsString} {c : UInt16} (h : isSpace c = true) :
    (codePoints s).getLast? = some c.toNat ↔ s.getLast? = some c := by
  constructor
  · intro hlast
    obtain ⟨l, hl⟩ := List.getLast?_eq_some_iff.mp hlast
    refine List.getLast?_eq_some_iff.mpr ⟨l.flatMap fromCodePoint, ?_⟩
    rw [← flatMap_codePoints s, hl, List.flatMap_append, List.flatMap_cons, fromCodePoint_unit]
    rfl
  · intro hlast
    obtain ⟨l, rfl⟩ := List.getLast?_eq_some_iff.mp hlast
    rw [codePoints_append_cons (isSpace_bounds h)]
    simp [codePoints]

/-- White space is mapped to itself, and nothing else is. -/
theorem lowerAt_space {before after : List ℕ} {n m : ℕ} (hm : m ∈ u.lowerAt before n after)
    (h : isSpacePoint n = true ∨ isSpacePoint m = true) : m = n := by
  rcases mem_lowerAt hm with hm | ⟨rfl, rfl⟩
  · exact u.space n m hm h
  · exact absurd h (by decide)

theorem head_lowerFrom_space {l before : List ℕ} {m : ℕ} (h : isSpacePoint m = true) :
    (u.lowerFrom before l).head? = some m ↔ l.head? = some m := by
  cases l with
  | nil => rfl
  | cons n l =>
      cases hat : u.lowerAt before n l with
      | nil => exact absurd hat (lowerAt_ne_nil _ _ _)
      | cons k r =>
          rw [lowerFrom, hat, List.cons_append, List.head?_cons, List.head?_cons, Option.some.injEq,
            Option.some.injEq]
          have hk : k ∈ u.lowerAt before n l := by
            rw [hat]
            exact List.mem_cons_self
          constructor
          · rintro rfl
            exact (lowerAt_space hk (.inr h)).symm
          · rintro rfl
            exact lowerAt_space hk (.inl h)

theorem last_lowerFrom {l : List ℕ} {n : ℕ} (hn : l.getLast? = some n) (before : List ℕ) :
    ∃ before', (u.lowerFrom before l).getLast? = (u.lowerAt before' n []).getLast? := by
  induction l generalizing before with
  | nil => cases hn
  | cons k l ih =>
      cases l with
      | nil =>
          cases hn
          exact ⟨before, by simp [lowerFrom]⟩
      | cons k' l =>
          obtain ⟨before', heq⟩ := ih (by simpa using hn) (k :: before)
          refine ⟨before', ?_⟩
          rw [lowerFrom, List.getLast?_append, heq]
          cases hlast : (u.lowerAt before' n []).getLast? with
          | none => exact absurd (List.getLast?_eq_none_iff.mp hlast) (lowerAt_ne_nil _ _ _)
          | some _ => rfl

theorem last_lowerFrom_space {l before : List ℕ} {m : ℕ} (h : isSpacePoint m = true) :
    (u.lowerFrom before l).getLast? = some m ↔ l.getLast? = some m := by
  cases hl : l.getLast? with
  | none =>
      rw [List.getLast?_eq_none_iff.mp hl]
      rfl
  | some n =>
      obtain ⟨before', heq⟩ := last_lowerFrom hl before (u := u)
      rw [heq, Option.some.injEq]
      cases hlast : (u.lowerAt before' n []).getLast? with
      | none => exact absurd (List.getLast?_eq_none_iff.mp hlast) (lowerAt_ne_nil _ _ _)
      | some k =>
          have hk := List.mem_of_mem_getLast? hlast
          rw [Option.some.injEq]
          constructor
          · rintro rfl
            exact (lowerAt_space hk (.inr h)).symm
          · rintro rfl
            exact lowerAt_space hk (.inl h)

/-- Lower-casing neither adds nor removes white space at the ends. -/
theorem trimmed_toLowerCase {s : JsString} : Trimmed (u.toLowerCase s) ↔ Trimmed s := by
  have hhead : ∀ c, isSpace c = true → ((u.toLowerCase s).head? = some c ↔ s.head? = some c) := by
    intro c hc
    rw [← head_codePoints_space hc, codePoints_toLowerCase,
      head_lowerFrom_space (by rw [isSpacePoint_toNat, hc]), head_codePoints_space hc]
  have hlast : ∀ c, isSpace c = true →
      ((u.toLowerCase s).getLast? = some c ↔ s.getLast? = some c) := by
    intro c hc
    rw [← last_codePoints_space hc, codePoints_toLowerCase,
      last_lowerFrom_space (by rw [isSpacePoint_toNat, hc]), last_codePoints_space hc]
  constructor
  · intro h
    refine ⟨fun c hc => ?_, fun c hc => ?_⟩
    · by_contra hspace
      rw [Bool.not_eq_false] at hspace
      exact absurd (h.head c ((hhead c hspace).mpr hc)) (by simp [hspace])
    · by_contra hspace
      rw [Bool.not_eq_false] at hspace
      exact absurd (h.last c ((hlast c hspace).mpr hc)) (by simp [hspace])
  · intro h
    refine ⟨fun c hc => ?_, fun c hc => ?_⟩
    · by_contra hspace
      rw [Bool.not_eq_false] at hspace
      exact absurd (h.head c ((hhead c hspace).mp hc)) (by simp [hspace])
    · by_contra hspace
      rw [Bool.not_eq_false] at hspace
      exact absurd (h.last c ((hlast c hspace).mp hc)) (by simp [hspace])

end CaseData

end ResendConversation
