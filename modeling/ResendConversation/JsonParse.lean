import ResendConversation.Dates
import ResendConversation.SendValidation

/-! # Parsing JSON texts

`JSON.parse`: the value of a text, or `none` where it throws.  A number is kept as the numeral that
stands for it.  A list of strings is read back from its text (`parse_stringify_strings`). -/

namespace ResendConversation

open Foundation JsString

namespace Json

/-- The white space of the JSON grammar, which is less than what `trim` removes. -/
def isJsonSpace (c : UInt16) : Bool := c == 32 || c == 9 || c == 10 || c == 13

def skipSpace (s : JsString) : JsString := s.dropWhile isJsonSpace

/-- The value of a hexadecimal digit in either case. -/
def hexNumber (c : UInt16) : ℕ := if isUpperLetter c then c.toNat - 55 else hexValue c

/-- The code unit of a short escape. -/
def shortEscape (c : UInt16) : Option UInt16 :=
  if c == 34 || c == 92 || c == 47 then some c
  else if c = 98 then some 8
  else if c = 102 then some 12
  else if c = 110 then some 10
  else if c = 114 then some 13
  else if c = 116 then some 9
  else none

/-- The code units up to the closing quotation mark, and what follows it. -/
def parseUnits : JsString → Option (JsString × JsString)
  | [] => none
  | c :: s =>
      if c = 34 then some ([], s)
      else if c = 92 then
        match s with
        | [] => none
        | e :: s =>
            if e = 117 then
              match s with
              | a :: b :: x :: d :: s =>
                  if [a, b, x, d].all isHexDigit then
                    (parseUnits s).map fun r =>
                      ((Digits.value 16 ([a, b, x, d].map hexNumber)).toUInt16 :: r.1, r.2)
                  else none
              | _ => none
            else
              match shortEscape e with
              | none => none
              | some u => (parseUnits s).map fun r => (u :: r.1, r.2)
      else if c < 32 then none
      else (parseUnits s).map fun r => (c :: r.1, r.2)

/-! ### Numerals -/

/-- A sequence of one digit at least, and what follows it. -/
def takeDigits (s : JsString) : Option (JsString × JsString) :=
  match s.span isDigit with
  | ([], _) => none
  | (ds, r) => some (ds, r)

/-- An optional part of a numeral that starts with one of `marks`. -/
def takePart (marks signs : JsString) (s : JsString) : Option (JsString × JsString) :=
  match s with
  | c :: r =>
      if marks.contains c then
        match r with
        | sign :: r' =>
            if signs.contains sign then (takeDigits r').map fun p => (c :: sign :: p.1, p.2)
            else (takeDigits r).map fun p => (c :: p.1, p.2)
        | [] => none
      else some ([], s)
  | [] => some ([], [])

/-- A numeral: no zero before other digits, and digits after a full stop and after an exponent. -/
def takeNumeral (s : JsString) : Option (JsString × JsString) := do
  let (sign, s) := if s.head? = some 45 then ([45], s.tail) else ([], s)
  let (whole, s) ← if s.head? = some 48 then some ([48], s.tail) else takeDigits s
  let (fraction, s) ← takePart [46] [] s
  let (exponent, s) ← takePart [69, 101] [43, 45] s
  some (sign ++ whole ++ fraction ++ exponent, s)

/-! ### Values -/

/-- The members of an object, where a later member replaces an earlier one of the same name. -/
def mergeMembers (members : List (JsString × Json)) : List (JsString × Json) :=
  members.foldl (fun merged m =>
    if merged.any (fun n => n.1 == m.1) then merged.map fun n => if n.1 == m.1 then m else n
    else merged ++ [m]) []

/-- A word of the grammar. -/
def takeWord (word : String) (value : Json) (s : JsString) : Option (Json × JsString) :=
  if (js word).isPrefixOf s then some (value, s.drop (js word).length) else none

/-- The name of a member and the colon after it. -/
def takeName (s : JsString) : Option (JsString × JsString) :=
  if (skipSpace s).head? = some 34 then
    (parseUnits (skipSpace s).tail).bind fun p =>
      if (skipSpace p.2).head? = some 58 then some (p.1, (skipSpace p.2).tail) else none
  else none

mutual

def parseValue : ℕ → JsString → Option (Json × JsString)
  | 0, _ => none
  | fuel + 1, s =>
      match skipSpace s with
      | [] => none
      | c :: r =>
          if c = 34 then (parseUnits r).map fun p => (string p.1, p.2)
          else if c = 91 then
            if (skipSpace r).head? = some 93 then some (array [], (skipSpace r).tail)
            else (parseElements fuel r).map fun p => (array p.1, p.2)
          else if c = 123 then
            if (skipSpace r).head? = some 125 then some (object [], (skipSpace r).tail)
            else (parseMembers fuel r).map fun p => (object (mergeMembers p.1), p.2)
          else if c = 110 then takeWord "null" null (c :: r)
          else if c = 116 then takeWord "true" (bool true) (c :: r)
          else if c = 102 then takeWord "false" (bool false) (c :: r)
          else (takeNumeral (c :: r)).map fun p => (number p.1, p.2)

/-- The elements of an array up to the closing bracket. -/
def parseElements : ℕ → JsString → Option (List Json × JsString)
  | 0, _ => none
  | fuel + 1, s =>
      match parseValue fuel s with
      | none => none
      | some (value, r) =>
          match skipSpace r with
          | [] => none
          | c :: r =>
              if c = 44 then (parseElements fuel r).map fun p => (value :: p.1, p.2)
              else if c = 93 then some ([value], r)
              else none

/-- The members of an object up to the closing brace. -/
def parseMembers : ℕ → JsString → Option (List (JsString × Json) × JsString)
  | 0, _ => none
  | fuel + 1, s =>
      match takeName s with
      | none => none
      | some (name, r) =>
          match parseValue fuel r with
          | none => none
          | some (value, r) =>
              match skipSpace r with
              | [] => none
              | c :: r =>
                  if c = 44 then (parseMembers fuel r).map fun p => ((name, value) :: p.1, p.2)
                  else if c = 125 then some ([(name, value)], r)
                  else none

end

/-- `JSON.parse(text)`. -/
def parse (text : JsString) : Option Json :=
  match parseValue (2 * text.length + 1) text with
  | none => none
  | some (value, r) => if (skipSpace r).isEmpty then some value else none

/-! ### Strings are read back -/

theorem parseUnits_quote (s : JsString) : parseUnits (34 :: s) = some ([], s) := by
  rw [parseUnits.eq_def]
  exact if_pos rfl

theorem parseUnits_plain {c : UInt16} (hquote : c ≠ 34) (hslash : c ≠ 92) (hcontrol : ¬c < 32)
    (s : JsString) :
    parseUnits (c :: s) = (parseUnits s).map fun r => (c :: r.1, r.2) := by
  rw [parseUnits.eq_def]
  dsimp only
  rw [if_neg hquote, if_neg hslash, if_neg hcontrol]

theorem parseUnits_short {c u : UInt16} (hc : c ≠ 117) (h : shortEscape c = some u) (s : JsString) :
    parseUnits (92 :: c :: s) = (parseUnits s).map fun r => (u :: r.1, r.2) := by
  rw [parseUnits.eq_def]
  dsimp only
  rw [if_neg (by decide), if_pos rfl]
  rw [if_neg hc, h]

theorem parseUnits_hex {a b c d : UInt16} (h : [a, b, c, d].all isHexDigit = true) (s : JsString) :
    parseUnits (92 :: 117 :: a :: b :: c :: d :: s) = (parseUnits s).map fun r =>
      ((Digits.value 16 ([a, b, c, d].map hexNumber)).toUInt16 :: r.1, r.2) := by
  rw [parseUnits.eq_def]
  dsimp only
  rw [if_neg (by decide), if_pos rfl]
  rw [if_pos rfl, if_pos h]

theorem isHexDigit_hexDigit : ∀ n < 16, isHexDigit (hexDigit n) = true := by decide

theorem hexNumber_hexDigit : ∀ n < 16, hexNumber (hexDigit n) = n := by decide

/-- The short escape of a code point is read back as the code point. -/
theorem shortEscape_escapeLetter {n : ℕ} {c : UInt16} (h : escapeLetter n = some c) :
    shortEscape c = some n.toUInt16 ∧ c ≠ 117 ∧ fromCodePoint n = [n.toUInt16] := by
  simp only [escapeLetter] at h
  repeat' split at h
  all_goals
    cases h
    try subst_vars
    try exact ⟨by decide, by decide, by decide⟩

/-- A code point that is no control character is read as its code units. -/
theorem parseUnits_fromCodePoint {n : ℕ} (hn : n < 0x110000) (hquote : n ≠ 34) (hslash : n ≠ 92)
    (hcontrol : ¬n < 32) (s : JsString) :
    parseUnits (fromCodePoint n ++ s) = (parseUnits s).map fun r =>
      (fromCodePoint n ++ r.1, r.2) := by
  have hplain : ∀ {m : ℕ} (r : JsString), m < 0x10000 → m ≠ 34 → m ≠ 92 → ¬m < 32 →
      parseUnits (m.toUInt16 :: r) = (parseUnits r).map fun p => (m.toUInt16 :: p.1, p.2) := by
    intro m r hm h₁ h₂ h₃
    have hnat := toNat_toUInt16 hm
    refine parseUnits_plain ?_ ?_ ?_ r
    · intro heq
      rw [heq] at hnat
      exact h₁ hnat.symm
    · intro heq
      rw [heq] at hnat
      exact h₂ hnat.symm
    · rw [UInt16.lt_iff_toNat_lt, hnat]
      exact h₃
  unfold fromCodePoint
  split
  next hunit => exact hplain s hunit hquote hslash hcontrol
  next hpair =>
    have hlead := hplain ((0xDC00 + (n - 0x10000) % 0x400).toUInt16 :: s)
      (show 0xD800 + (n - 0x10000) / 0x400 < 0x10000 by omega) (by omega) (by omega) (by omega)
    have htrail := hplain s (show 0xDC00 + (n - 0x10000) % 0x400 < 0x10000 by omega) (by omega)
      (by omega) (by omega)
    dsimp only [List.cons_append, List.nil_append]
    rw [hlead, htrail, Option.map_map]
    rfl

theorem parseUnits_quoteCodePoint {n : ℕ} (hn : n < 0x110000) (s : JsString) :
    parseUnits (quoteCodePoint n ++ s) = (parseUnits s).map fun r =>
      (fromCodePoint n ++ r.1, r.2) := by
  unfold quoteCodePoint
  cases hletter : escapeLetter n with
  | some c =>
      obtain ⟨hescape, hc, hunit⟩ := shortEscape_escapeLetter hletter
      dsimp only [List.cons_append, List.nil_append]
      rw [parseUnits_short hc hescape, hunit]
      rfl
  | none =>
      obtain ⟨hquote, hslash⟩ := escapeLetter_none hletter
      dsimp only
      split
      next hescaped =>
        have hdigits : [hexDigit (n / 4096 % 16), hexDigit (n / 256 % 16), hexDigit (n / 16 % 16),
            hexDigit (n % 16)].all
            isHexDigit = true := by
          simp [isHexDigit_hexDigit _ (Nat.mod_lt _ (by decide : 0 < 16))]
        have hvalue : Digits.value 16 ([hexDigit (n / 4096 % 16), hexDigit (n / 256 % 16),
            hexDigit (n / 16 % 16), hexDigit (n % 16)].map hexNumber) = n := by
          simp only [List.map_cons, List.map_nil,
            hexNumber_hexDigit _ (Nat.mod_lt _ (by decide : 0 < 16)),
            Digits.value, List.foldl_cons, List.foldl_nil]
          omega
        have hunit : fromCodePoint n = [n.toUInt16] := if_pos (by omega)
        unfold unicodeEscape
        dsimp only [List.cons_append, List.nil_append]
        rw [parseUnits_hex hdigits, hvalue, hunit]
        rfl
      next hplain => exact parseUnits_fromCodePoint hn hquote hslash (by omega) s

theorem parseUnits_flatMap {points : List ℕ} (h : ∀ n ∈ points, n < 0x110000) (s : JsString) :
    parseUnits (points.flatMap quoteCodePoint ++ 34 :: s) =
      some (points.flatMap fromCodePoint, s) := by
  induction points with
  | nil => exact parseUnits_quote s
  | cons n points ih =>
      have hrest := ih fun m hm => h m (List.mem_cons_of_mem n hm)
      rw [List.flatMap_cons, List.flatMap_cons, List.append_assoc,
        parseUnits_quoteCodePoint (h n List.mem_cons_self), hrest]
      rfl

theorem parseValue_quote (fuel : ℕ) (t s : JsString) :
    parseValue (fuel + 1) (quote t ++ s) = some (string t, s) := by
  have hunits := parseUnits_flatMap (settled_codePoints t).bounded s
  rw [flatMap_codePoints] at hunits
  have hspace : skipSpace (quote t ++ s) =
      34 :: ((codePoints t).flatMap quoteCodePoint ++ 34 :: s) := by
    simp [quote, skipSpace, isJsonSpace]
  rw [parseValue, hspace]
  dsimp only
  rw [if_pos rfl, hunits]
  rfl

theorem parseElements_strings (t : JsString) (ts : List JsString) {fuel : ℕ}
    (hfuel : ts.length + 1 < fuel) :
    parseElements fuel (stringify (string t) ++ stringifyElements (ts.map string)) =
      some (string t :: ts.map string, []) := by
  induction ts generalizing t fuel with
  | nil =>
      obtain ⟨fuel, rfl⟩ : ∃ k, fuel = k + 1 + 1 := ⟨fuel - 2, by simp at hfuel; omega⟩
      rw [stringify, parseElements, parseValue_quote]
      rfl
  | cons u us ih =>
      rw [List.length_cons] at hfuel
      obtain ⟨fuel, rfl⟩ : ∃ k, fuel = k + 1 + 1 := ⟨fuel - 2, by omega⟩
      have hrest := @ih u (fuel + 1) (by omega)
      rw [List.map_cons, stringifyElements, stringify, parseElements, parseValue_quote]
      dsimp only
      rw [show skipSpace (44 :: (stringify (string u) ++ stringifyElements (us.map string))) =
        44 :: (stringify (string u) ++ stringifyElements (us.map string)) from rfl]
      dsimp only
      rw [if_pos rfl, hrest]
      rfl

/-- A list of strings is read back from its text. -/
theorem parse_stringify_strings (t : JsString) (ts : List JsString) :
    parse (stringify (array (string t :: ts.map string))) =
      some (array (string t :: ts.map string)) := by
  have hlength : ∀ us : List JsString, us.length ≤ (stringifyElements (us.map string)).length := by
    intro us
    induction us with
    | nil => simp
    | cons u us ih =>
        rw [List.map_cons, stringifyElements, List.length_cons, List.length_cons,
          List.length_append]
        omega
  have hts := hlength ts
  have hquote : 0 < (stringify (string t)).length := by
    simp [stringify, quote]
  have hfuel : ts.length + 1 < 2 * (stringify (array (string t :: ts.map string))).length := by
    rw [stringify, List.length_cons, List.length_append]
    omega
  have helements := parseElements_strings t ts hfuel
  rw [parse]
  generalize hn : 2 * (stringify (array (string t :: ts.map string))).length = n at helements
  rw [stringify, parseValue]
  rw [show skipSpace (91 :: (stringify (string t) ++ stringifyElements (ts.map string))) =
    91 :: (stringify (string t) ++ stringifyElements (ts.map string)) from rfl]
  have hhead : (skipSpace (stringify (string t) ++ stringifyElements (ts.map string))).head? =
      some 34 := by
    simp [stringify, quote, skipSpace, isJsonSpace]
  dsimp only
  rw [if_neg (by decide), if_pos rfl, hhead, if_neg (by decide), helements]
  rfl

end Json

end ResendConversation
