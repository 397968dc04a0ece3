import Mathlib.Data.List.Basic

/-! # UTF-8

The octets of a Unicode scalar value and the reader of a sequence of octets.  Octets are natural
numbers; the reader accepts the shortest form of scalar values only, and reads what the writer
writes (`decode_flatMap_encode`). -/

namespace Foundation

namespace Utf8

/-- A code point that is no surrogate. -/
def Scalar (n : ℕ) : Prop := n < 0xD800 ∨ (0xE000 ≤ n ∧ n < 0x110000)

/-- An octet that continues a character. -/
def isTail (b : ℕ) : Bool := 0x80 ≤ b && b < 0xC0

def encode (n : ℕ) : List ℕ :=
  if n < 0x80 then [n]
  else if n < 0x800 then [0xC0 + n / 0x40, 0x80 + n % 0x40]
  else if n < 0x10000 then [0xE0 + n / 0x1000, 0x80 + n / 0x40 % 0x40, 0x80 + n % 0x40]
  else [0xF0 + n / 0x40000, 0x80 + n / 0x1000 % 0x40, 0x80 + n / 0x40 % 0x40, 0x80 + n % 0x40]

/-- The first character of a sequence of octets, and the octets after it. -/
def decodeOne : List ℕ → Option (ℕ × List ℕ)
  | [] => none
  | a :: s =>
      if a < 0x80 then some (a, s)
      else if a < 0xE0 then
        match s with
        | b :: s =>
            let n := (a - 0xC0) * 0x40 + (b - 0x80)
            if 0xC0 ≤ a ∧ isTail b ∧ 0x80 ≤ n then some (n, s) else none
        | _ => none
      else if a < 0xF0 then
        match s with
        | b :: c :: s =>
            let n := (a - 0xE0) * 0x1000 + (b - 0x80) * 0x40 + (c - 0x80)
            if isTail b ∧ isTail c ∧ 0x800 ≤ n ∧
              (n < 0xD800 ∨ 0xE000 ≤ n) then some (n, s) else none
        | _ => none
      else
        match s with
        | b :: c :: d :: s =>
            let n := (a - 0xF0) * 0x40000 + (b - 0x80) * 0x1000 + (c - 0x80) * 0x40 + (d - 0x80)
            if isTail b ∧ isTail c ∧ isTail d ∧ 0x10000 ≤ n ∧
              n < 0x110000 then some (n, s) else none
        | _ => none

/-- The characters of a sequence of at most `fuel` octets. -/
def decodeUpTo : ℕ → List ℕ → Option (List ℕ)
  | _, [] => some []
  | 0, _ :: _ => none
  | fuel + 1, b :: s => (decodeOne (b :: s)).bind fun r => (decodeUpTo fuel r.2).map (r.1 :: ·)

def decode (s : List ℕ) : Option (List ℕ) := decodeUpTo s.length s

/-! ### The writer -/

theorem encode_ne_nil (n : ℕ) : encode n ≠ [] := by
  unfold encode
  split
  · simp
  · split
    · simp
    · split
      · simp
      · simp

theorem encode_lt {n b : ℕ} (hn : n < 0x110000) (hb : b ∈ encode n) : b < 0x100 := by
  unfold encode at hb
  split at hb
  · rw [List.mem_singleton] at hb
    omega
  · split at hb
    · simp only [List.mem_cons, List.not_mem_nil, or_false] at hb
      omega
    · split at hb
      · simp only [List.mem_cons, List.not_mem_nil, or_false] at hb
        omega
      · simp only [List.mem_cons, List.not_mem_nil, or_false] at hb
        omega

theorem encode_ascii {n : ℕ} (h : n < 0x80) : encode n = [n] := if_pos h

/-! ### The reader reads what the writer writes -/

theorem isTail_iff {b : ℕ} : isTail b = true ↔ 0x80 ≤ b ∧ b < 0xC0 := by simp [isTail]

theorem decodeOne_encode {n : ℕ} (hn : Scalar n) (s : List ℕ) :
    decodeOne (encode n ++ s) = some (n, s) := by
  unfold Scalar at hn
  unfold encode
  split
  next h => simp [decodeOne, h]
  next h₁ =>
    split
    next h₂ =>
      have hlead : ¬0xC0 + n / 0x40 < 0x80 := by omega
      have hlead' : 0xC0 + n / 0x40 < 0xE0 := by omega
      have hvalue : (0xC0 + n / 0x40 - 0xC0) * 0x40 + (0x80 + n % 0x40 - 0x80) = n := by omega
      simp only [List.cons_append, List.nil_append, decodeOne, if_neg hlead, if_pos hlead',
        isTail_iff, hvalue]
      rw [if_pos (by omega)]
    next h₂ =>
      split
      next h₃ =>
        have hlead : ¬0xE0 + n / 0x1000 < 0x80 := by omega
        have hlead' : ¬0xE0 + n / 0x1000 < 0xE0 := by omega
        have hlead'' : 0xE0 + n / 0x1000 < 0xF0 := by omega
        have hvalue : (0xE0 + n / 0x1000 - 0xE0) * 0x1000 + (0x80 + n / 0x40 % 0x40 - 0x80) * 0x40 +
            (0x80 + n % 0x40 - 0x80) = n := by omega
        simp only [List.cons_append, List.nil_append, decodeOne, if_neg hlead, if_neg hlead',
          if_pos hlead'', isTail_iff, hvalue]
        rw [if_pos (by omega)]
      next h₃ =>
        have hlead : ¬0xF0 + n / 0x40000 < 0x80 := by omega
        have hlead' : ¬0xF0 + n / 0x40000 < 0xE0 := by omega
        have hlead'' : ¬0xF0 + n / 0x40000 < 0xF0 := by omega
        have hvalue : (0xF0 + n / 0x40000 - 0xF0) * 0x40000 +
            (0x80 + n / 0x1000 % 0x40 - 0x80) * 0x1000 +
            (0x80 + n / 0x40 % 0x40 - 0x80) * 0x40 + (0x80 + n % 0x40 - 0x80) = n := by omega
        simp only [List.cons_append, List.nil_append, decodeOne, if_neg hlead, if_neg hlead',
          if_neg hlead'', isTail_iff, hvalue]
        rw [if_pos (by omega)]

theorem decodeUpTo_flatMap_encode {l : List ℕ} (h : ∀ n ∈ l, Scalar n) {fuel : ℕ}
    (hfuel : (l.flatMap encode).length ≤ fuel) : decodeUpTo fuel (l.flatMap encode) = some l := by
  induction l generalizing fuel with
  | nil => cases fuel <;> rfl
  | cons n l ih =>
      have hpos := List.length_pos_iff.mpr (encode_ne_nil n)
      rw [List.flatMap_cons, List.length_append] at hfuel
      obtain ⟨fuel, rfl⟩ : ∃ k, fuel = k + 1 := ⟨fuel - 1, by omega⟩
      have hrest := @ih (fun m hm => h m (List.mem_cons_of_mem n hm)) fuel (by omega)
      have hone := decodeOne_encode (h n List.mem_cons_self) (l.flatMap encode)
      rw [List.flatMap_cons]
      cases hoctets : encode n ++ l.flatMap encode with
      | nil => exact absurd (List.append_eq_nil_iff.mp hoctets).1 (encode_ne_nil n)
      | cons b s =>
          rw [hoctets] at hone
          rw [decodeUpTo, hone, Option.bind_some, hrest]
          rfl

/-- The octets of scalar values are read back. -/
theorem decode_flatMap_encode {l : List ℕ} (h : ∀ n ∈ l, Scalar n) :
    decode (l.flatMap encode) = some l :=
  decodeUpTo_flatMap_encode h (Nat.le_refl _)

/-! ### The reader that replaces

A sequence that starts no character is replaced by U+FFFD as far as it could have started one, at
least its first octet. -/

/-- The second octets that may follow a lead. -/
def secondBounds (a : ℕ) : ℕ × ℕ :=
  if a = 0xE0 then (0xA0, 0xBF)
  else if a = 0xED then (0x80, 0x9F)
  else if a = 0xF0 then (0x90, 0xBF)
  else if a = 0xF4 then (0x80, 0x8F)
  else (0x80, 0xBF)

/-- The number of octets that a character with this lead has. -/
def announced (a : ℕ) : ℕ :=
  if 0xC2 ≤ a ∧ a ≤ 0xDF then 2
  else if 0xE0 ≤ a ∧ a ≤ 0xEF then 3
  else if 0xF0 ≤ a ∧ a ≤ 0xF4 then 4
  else 1

/-- The number of octets that one U+FFFD stands for, at the start of a sequence without a
character. -/
def replaced : List ℕ → ℕ
  | a :: b :: s =>
      if announced a = 1 ∨ b < (secondBounds a).1 ∨ (secondBounds a).2 < b then 1
      else min (2 + (s.takeWhile isTail).length) (announced a - 1)
  | _ => 1

def decodeLossyUpTo : ℕ → List ℕ → List ℕ
  | _, [] => []
  | 0, _ :: _ => []
  | fuel + 1, b :: s =>
      match decodeOne (b :: s) with
      | some (n, s) => n :: decodeLossyUpTo fuel s
      | none => 0xFFFD :: decodeLossyUpTo fuel ((b :: s).drop (replaced (b :: s)))

def decodeLossy (s : List ℕ) : List ℕ := decodeLossyUpTo s.length s

/-- ASCII is read as it stands. -/
theorem decodeLossy_ascii {s : List ℕ} (h : ∀ b ∈ s, b < 0x80) : decodeLossy s = s := by
  unfold decodeLossy
  induction s with
  | nil => rfl
  | cons b s ih =>
      have hb := h b List.mem_cons_self
      have hone : decodeOne (b :: s) = some (b, s) := if_pos hb
      rw [List.length_cons, decodeLossyUpTo, hone]
      dsimp only
      rw [ih fun c hc => h c (List.mem_cons_of_mem b hc)]

end Utf8

end Foundation
