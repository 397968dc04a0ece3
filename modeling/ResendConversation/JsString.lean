import Mathlib.Algebra.GroupWithZero.Nat
import Mathlib.Data.List.Basic

/-! # Strings of the source language

A string is the sequence of its UTF-16 code units, which is what length limits, regular
expressions without the unicode flag and index arithmetic of the source count.  Only the
operations that the service uses are defined, each under the name the source calls it by. -/

namespace ResendConversation

/-- A string: its UTF-16 code units. -/
abbrev JsString := List UInt16

/-- The string of an ASCII literal. -/
def js (s : String) : JsString := s.toList.map fun c => c.toNat.toUInt16

namespace JsString

/-- The characters `trim` removes and `\s` matches: white space and line terminators. -/
def isSpace (c : UInt16) : Bool :=
  (9 ≤ c && c ≤ 13) || c == 32 || c == 160 || c == 0x1680 || (0x2000 ≤ c && c ≤ 0x200A) ||
    c == 0x2028 || c == 0x2029 || c == 0x202F || c == 0x205F || c == 0x3000 || c == 0xFEFF

/-- The characters that `.` of a regular expression does not match. -/
def isLineTerminator (c : UInt16) : Bool := c == 10 || c == 13 || c == 0x2028 || c == 0x2029

def isDigit (c : UInt16) : Bool := 48 ≤ c && c ≤ 57

def isLowerLetter (c : UInt16) : Bool := 97 ≤ c && c ≤ 122

def isUpperLetter (c : UInt16) : Bool := 65 ≤ c && c ≤ 90

def trimStart (s : JsString) : JsString := s.dropWhile isSpace

def trimEnd (s : JsString) : JsString := (s.reverse.dropWhile isSpace).reverse

def trim (s : JsString) : JsString := trimEnd (trimStart s)

/-- `s.slice(from, to)` for indices within the string. -/
def slice (s : JsString) (start stop : ℕ) : JsString := (s.drop start).take (stop - start)

/-- `s.lastIndexOf(needle, position)`: the last occurrence that starts at or before the
position. -/
def lastIndexOf (s needle : JsString) (position : ℕ) : Option ℕ :=
  ((List.range (min position s.length + 1)).reverse).find? fun i => needle.isPrefixOf (s.drop i)

/-- `s.split(separator)` for a separator of one code unit. -/
def split (separator : UInt16) : JsString → List JsString
  | [] => [[]]
  | c :: s =>
      if c == separator then [] :: split separator s
      else
        match split separator s with
        | [] => [[c]]
        | w :: ws => (c :: w) :: ws

/-- `words.join(separator)`. -/
def join (separator : JsString) : List JsString → JsString
  | [] => []
  | [w] => w
  | w :: ws => w ++ separator ++ join separator ws

/-- `s.replaceAll(c, replacement)` for a pattern of one code unit. -/
def replaceAll (c : UInt16) (replacement : JsString) (s : JsString) : JsString :=
  s.flatMap fun d => if d == c then replacement else [d]

/-- Whether a text column takes the string. -/
def storable (s : JsString) : Bool := !s.contains 0

/-- What a run over the code units of a string checks holds of each of them. -/
theorem forall_mem_of_all {p : UInt16 → Prop} [DecidablePred p] {s : JsString}
    (h : s.all (decide <| p ·) = true) :
    ∀ c ∈ s, p c := by
  intro c hc
  have hp := List.all_eq_true.mp h c hc
  exact of_decide_eq_true hp

end JsString

/-- The value of a string, or `none` for the empty string: `s || null`. -/
def orNull (s : JsString) : Option JsString := if s.isEmpty then none else some s

end ResendConversation
