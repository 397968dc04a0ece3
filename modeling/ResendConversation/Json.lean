import ResendConversation.Inbound
import ResendConversation.LetterCase

/-! # JSON values

The values that `request.json()` yields and the text that `JSON.stringify` writes.  A property
access on a value is `Json.field`; `none` is `undefined`.  The text is self-delimiting: reading
what was written for one code point of a string gives the code point and the rest of the text
back (`readCodePoint`), so different values have different texts (`stringify_injective`).  The
literal of a number does not delimit itself, hence `Json.Numberless`. -/

namespace ResendConversation

open JsString

inductive Json where
  | null
  | bool (b : Bool)
  | number (literal : JsString)
  | string (s : JsString)
  | array (elements : List Json)
  | object (members : List (JsString × Json))

namespace Json

/-- `isRecord`: an object that is not an array. -/
def isRecord : Option Json → Bool
  | some (object _) => true
  | _ => false

/-- The property of a record, `undefined` when it is absent. -/
def field (name : String) : Option Json → Option Json
  | some (object members) => (members.find? fun m => m.1 == js name).map Prod.snd
  | _ => none

/-- The value when it is a string. -/
def asString : Option Json → Option JsString
  | some (string s) => some s
  | _ => none

/-! ### Texts -/

/-- `\u` and four hexadecimal digits. -/
def unicodeEscape (n : ℕ) : JsString :=
  [92, 117, hexDigit (n / 4096 % 16), hexDigit (n / 256 % 16), hexDigit (n / 16 % 16),
    hexDigit (n % 16)]

/-- The letter of a short escape. -/
def escapeLetter (n : ℕ) : Option UInt16 :=
  if n = 8 then some 98
  else if n = 9 then some 116
  else if n = 10 then some 110
  else if n = 12 then some 102
  else if n = 13 then some 114
  else if n = 34 then some 34
  else if n = 92 then some 92
  else none

/-- One code point inside quotation marks. -/
def quoteCodePoint (n : ℕ) : JsString :=
  match escapeLetter n with
  | some c => [92, c]
  | none => if n < 32 ∨ (0xD800 ≤ n ∧ n ≤ 0xDFFF) then unicodeEscape n else fromCodePoint n

def quote (s : JsString) : JsString := 34 :: (codePoints s).flatMap quoteCodePoint ++ [34]

mutual

/-- `JSON.stringify(value)`. -/
def stringify : Json → JsString
  | null => js "null"
  | bool b => if b then js "true" else js "false"
  | number literal => literal
  | string s => quote s
  | array [] => [91, 93]
  | array (e :: es) => 91 :: (stringify e ++ stringifyElements es)
  | object [] => [123, 125]
  | object ((name, value) :: ms) =>
      123 :: (quote name ++ 58 :: (stringify value ++ stringifyMembers ms))

/-- The elements after the first one, and the closing bracket. -/
def stringifyElements : List Json → JsString
  | [] => [93]
  | e :: es => 44 :: (stringify e ++ stringifyElements es)

/-- The members after the first one, and the closing brace. -/
def stringifyMembers : List (JsString × Json) → JsString
  | [] => [125]
  | (name, value) :: ms => 44 :: (quote name ++ 58 :: (stringify value ++ stringifyMembers ms))

end

mutual

/-- A value without numbers. -/
def numberless : Json → Bool
  | number _ => false
  | array es => numberlessElements es
  | object ms => numberlessMembers ms
  | _ => true

def numberlessElements : List Json → Bool
  | [] => true
  | e :: es => numberless e && numberlessElements es

def numberlessMembers : List (JsString × Json) → Bool
  | [] => true
  | (_, value) :: ms => numberless value && numberlessMembers ms

end

example : stringify (object [(js "a", array [string (js "x\n"), null])]) =
    js "\x7b\"a\":[\"x\\n\",null]\x7d" := by
  decide

/-! ### Reading a text back -/

/-- The value of a hexadecimal digit. -/
def hexValue (c : UInt16) : ℕ := if isDigit c then c.toNat - 48 else c.toNat - 87

theorem hexValue_hexDigit : ∀ n < 16, hexValue (hexDigit n) = n := by decide

/-- The code point of a short escape. -/
def unescapeLetter (c : UInt16) : ℕ :=
  if c = 98 then 8
  else if c = 116 then 9
  else if c = 110 then 10
  else if c = 102 then 12
  else if c = 114 then 13
  else c.toNat

/-- The code point at the start of a text, and what follows it. -/
def readCodePoint : JsString → Option (ℕ × JsString)
  | 92 :: 117 :: a :: b :: c :: d :: r =>
      some (hexValue a * 4096 + hexValue b * 256 + hexValue c * 16 + hexValue d, r)
  | 92 :: c :: r => some (unescapeLetter c, r)
  | c :: d :: r => if isLeadSurrogate c then some (surrogatePair c d, r) else some (c.toNat, d :: r)
  | [c] => some (c.toNat, [])
  | [] => none

/-- The escape of a code point that has a short one. -/
theorem unescapeLetter_escapeLetter {n : ℕ} {c : UInt16} (h : escapeLetter n = some c) :
    unescapeLetter c = n ∧ c ≠ 117 := by
  simp only [escapeLetter] at h
  repeat' split at h
  all_goals
    cases h
    try subst_vars
    try exact ⟨by decide, by decide⟩

theorem escapeLetter_none {n : ℕ} (h : escapeLetter n = none) : n ≠ 34 ∧ n ≠ 92 := by
  constructor
  · rintro rfl
    cases h
  · rintro rfl
    cases h

theorem readCodePoint_escape {c : UInt16} (h : c ≠ 117) (r : JsString) :
    readCodePoint (92 :: c :: r) = some (unescapeLetter c, r) := by
  unfold readCodePoint
  split
  next heq =>
    cases heq
    exact absurd rfl h
  next heq =>
    cases heq
    rfl
  next hslash heq =>
    cases heq
    exact absurd rfl hslash
  next heq => cases heq
  next heq => cases heq

theorem readCodePoint_unit {c : UInt16} (hslash : c ≠ 92) (hlead : ¬IsLead c.toNat) (r : JsString) :
    readCodePoint (c :: r) = some (c.toNat, r) := by
  unfold readCodePoint
  split
  next heq =>
    cases heq
    exact absurd rfl hslash
  next heq =>
    cases heq
    exact absurd rfl hslash
  next heq =>
    cases heq
    exact if_neg fun h => hlead (isLeadSurrogate_iff.mp h)
  next heq =>
    cases heq
    rfl
  next heq => cases heq

theorem readCodePoint_pair {c : UInt16} (hlead : IsLead c.toNat) (d : UInt16) (r : JsString) :
    readCodePoint (c :: d :: r) = some (surrogatePair c d, r) := by
  have hslash : c ≠ 92 := by
    rintro rfl
    exact absurd hlead.1 (by decide)
  unfold readCodePoint
  split
  next heq =>
    cases heq
    exact absurd rfl hslash
  next heq =>
    cases heq
    exact absurd rfl hslash
  next heq =>
    cases heq
    exact if_pos (isLeadSurrogate_iff.mpr hlead)
  next heq => cases heq
  next heq => cases heq

theorem not_isLead_ascii {c : UInt16} (h : c.toNat < 128) : ¬IsLead c.toNat := by
  unfold IsLead
  omega

theorem readCodePoint_quoteCodePoint {n : ℕ} (hn : n < 0x110000) (r : JsString) :
    readCodePoint (quoteCodePoint n ++ r) = some (n, r) := by
  unfold quoteCodePoint
  cases hletter : escapeLetter n with
  | some c =>
      obtain ⟨hvalue, hne⟩ := unescapeLetter_escapeLetter hletter
      dsimp only [List.cons_append, List.nil_append]
      rw [readCodePoint_escape hne, hvalue]
  | none =>
      obtain ⟨-, hslash⟩ := escapeLetter_none hletter
      dsimp only
      split
      next hsmall =>
        simp only [unicodeEscape, List.cons_append, List.nil_append, readCodePoint]
        rw [hexValue_hexDigit _ (Nat.mod_lt _ (by decide)),
          hexValue_hexDigit _ (Nat.mod_lt _ (by decide)),
          hexValue_hexDigit _ (Nat.mod_lt _ (by decide)),
            hexValue_hexDigit _ (Nat.mod_lt _ (by decide))]
        congr 2
        omega
      next hlarge =>
        have hpoint : codePoints (fromCodePoint n) = [n] := by
          have hsettled : Settled [n] := ⟨by simpa using hn, List.isChain_singleton n⟩
          simpa using codePoints_flatMap hsettled
        by_cases hunit : n < 0x10000
        · rw [fromCodePoint, if_pos hunit]
          have hnat := toNat_toUInt16 hunit
          rw [List.singleton_append, readCodePoint_unit, hnat]
          · intro heq
            rw [heq] at hnat
            exact hslash hnat.symm
          · rw [hnat]
            unfold IsLead
            omega
        · rw [fromCodePoint, if_neg hunit] at hpoint ⊢
          have hlead : (0xD800 + (n - 0x10000) / 0x400).toUInt16.toNat =
              0xD800 + (n - 0x10000) / 0x400 :=
            toNat_toUInt16 (by omega)
          have htrail : (0xDC00 + (n - 0x10000) % 0x400).toUInt16.toNat =
              0xDC00 + (n - 0x10000) % 0x400 :=
            toNat_toUInt16 (by omega)
          have hIsLead : IsLead (0xD800 + (n - 0x10000) / 0x400).toUInt16.toNat := by
            rw [hlead]
            exact ⟨by omega, by omega⟩
          have hIsTrail : IsTrail (0xDC00 + (n - 0x10000) % 0x400).toUInt16.toNat := by
            rw [htrail]
            exact ⟨by omega, by omega⟩
          rw [codePoints_cons_pair hIsLead hIsTrail, List.cons.injEq] at hpoint
          rw [List.cons_append, List.singleton_append, readCodePoint_pair hIsLead, hpoint.1]

/-- No code point starts with the closing quotation mark. -/
theorem quoteCodePoint_ne_quote {n : ℕ} (hn : n < 0x110000) (r r' : JsString) :
    quoteCodePoint n ++ r ≠ 34 :: r' := by
  intro heq
  have hread := readCodePoint_quoteCodePoint hn r
  rw [heq, readCodePoint_unit (by decide) (not_isLead_ascii (by decide)), Option.some.injEq,
    Prod.mk.injEq] at hread
  rw [← hread.1] at heq
  exact absurd (List.cons.inj heq).1 (by decide)

/-- A closing quotation mark ends the code points of a string. -/
theorem quoteCodePoints_append {l l' : List ℕ} (hl : ∀ n ∈ l, n < 0x110000)
    (hl' : ∀ n ∈ l', n < 0x110000) {r r' : JsString}
    (h : l.flatMap quoteCodePoint ++ 34 :: r = l'.flatMap quoteCodePoint ++ 34 :: r') :
    l = l' ∧ r = r' := by
  induction l generalizing l' with
  | nil =>
      cases l' with
      | nil => exact ⟨rfl, (List.cons.inj h).2⟩
      | cons m l' =>
          rw [List.flatMap_cons, List.append_assoc] at h
          exact absurd h.symm (quoteCodePoint_ne_quote (hl' m (by simp)) _ _)
  | cons n l ih =>
      rw [List.flatMap_cons, List.append_assoc] at h
      have hread :=
        readCodePoint_quoteCodePoint (hl n (by simp)) (l.flatMap quoteCodePoint ++ 34 :: r)
      cases l' with
      | nil => exact absurd h (quoteCodePoint_ne_quote (hl n (by simp)) _ _)
      | cons m l' =>
          rw [List.flatMap_cons, List.append_assoc] at h
          rw [h, readCodePoint_quoteCodePoint (hl' m (by simp)), Option.some.injEq,
            Prod.mk.injEq] at hread
          obtain ⟨hrest, hr⟩ := ih (fun k hk => hl k (List.mem_cons_of_mem n hk))
            (fun k hk => hl' k (List.mem_cons_of_mem m hk)) hread.2.symm
          rw [hread.1, hrest]
          exact ⟨rfl, hr⟩

theorem quote_append {s t r r' : JsString} (h : quote s ++ r = quote t ++ r') : s = t ∧ r = r' := by
  simp only [quote, List.cons_append, List.append_assoc, List.cons.injEq, true_and] at h
  obtain ⟨hpoints, hr⟩ :=
    quoteCodePoints_append (settled_codePoints s).bounded (settled_codePoints t).bounded h
  refine ⟨?_, hr⟩
  rw [← flatMap_codePoints s, hpoints, flatMap_codePoints]

/-- What the text of a value starts with tells its kind. -/
def opener : Json → UInt16
  | null => 110
  | bool b => if b then 116 else 102
  | number _ => 0
  | string _ => 34
  | array _ => 91
  | object _ => 123

theorem stringify_opener {a : Json} (h : a.numberless = true) :
    ∃ rest, a.stringify = a.opener :: rest := by
  cases a with
  | null => exact ⟨js "ull", by decide⟩
  | bool b =>
      cases b with
      | false => exact ⟨js "alse", by decide⟩
      | true => exact ⟨js "rue", by decide⟩
  | number literal => cases h
  | string s => exact ⟨_, by rw [stringify, quote]; rfl⟩
  | array es =>
      cases es with
      | nil => exact ⟨_, by rw [stringify]; rfl⟩
      | cons e es => exact ⟨_, by rw [stringify]; rfl⟩
  | object ms =>
      cases ms with
      | nil => exact ⟨_, by rw [stringify]; rfl⟩
      | cons m ms =>
          obtain ⟨name, value⟩ := m
          exact ⟨_, by rw [stringify]; rfl⟩

theorem opener_eq {a b : Json} (ha : a.numberless = true) (hb : b.numberless = true)
    {r r' : JsString} (h : a.stringify ++ r = b.stringify ++ r') : a.opener = b.opener := by
  obtain ⟨s, hs⟩ := stringify_opener ha
  obtain ⟨t, ht⟩ := stringify_opener hb
  rw [hs, ht] at h
  exact (List.cons.inj h).1

/-- Two values of one kind. -/
inductive SameKind : Json → Json → Prop where
  | null : SameKind null null
  | bool (b : Bool) : SameKind (bool b) (bool b)
  | string (s t : JsString) : SameKind (string s) (string t)
  | array (es fs : List Json) : SameKind (array es) (array fs)
  | object (ms ns : List (JsString × Json)) : SameKind (object ms) (object ns)

theorem sameKind_of_opener {a b : Json} (ha : a.numberless = true) (hb : b.numberless = true)
    (h : a.opener = b.opener) : SameKind a b := by
  cases a with
  | null =>
      cases b with
      | null => exact .null
      | bool c => cases c <;> simp [opener] at h
      | number _ => cases hb
      | _ => simp [opener] at h
  | bool b =>
      cases b <;> cases b with
      | bool c => cases c <;> first | exact .bool _ | simp [opener] at h
      | number _ => cases hb
      | _ => simp [opener] at h
  | number _ => cases ha
  | string s =>
      cases b with
      | string t => exact .string s t
      | bool c => cases c <;> simp [opener] at h
      | number _ => cases hb
      | _ => simp [opener] at h
  | array es =>
      cases b with
      | array fs => exact .array es fs
      | bool c => cases c <;> simp [opener] at h
      | number _ => cases hb
      | _ => simp [opener] at h
  | object ms =>
      cases b with
      | object ns => exact .object ms ns
      | bool c => cases c <;> simp [opener] at h
      | number _ => cases hb
      | _ => simp [opener] at h

theorem opener_ne_bracket (a : Json) : a.opener ≠ 93 := by
  cases a with
  | bool b => cases b <;> simp [opener]
  | _ => simp [opener]

/-- An element is not the end of the array. -/
theorem stringify_ne_bracket {a : Json} (h : a.numberless = true) (r r' : JsString) :
    a.stringify ++ r ≠ 93 :: r' := by
  obtain ⟨rest, hrest⟩ := stringify_opener h
  rw [hrest, List.cons_append]
  exact fun heq => opener_ne_bracket a (List.cons.inj heq).1

mutual

/-- The text of a value ends where the value ends. -/
theorem stringify_append : ∀ (a b : Json) (r r' : JsString), a.numberless = true →
    b.numberless = true → a.stringify ++ r = b.stringify ++ r' → a = b ∧ r = r'
  | .null, b, r, r', ha, hb, h => by
      cases sameKind_of_opener ha hb (opener_eq ha hb h)
      exact ⟨rfl, List.append_cancel_left h⟩
  | .bool c, b, r, r', ha, hb, h => by
      cases sameKind_of_opener ha hb (opener_eq ha hb h)
      exact ⟨rfl, List.append_cancel_left h⟩
  | .number _, _, _, _, ha, _, _ => by cases ha
  | .string s, b, r, r', ha, hb, h => by
      cases sameKind_of_opener ha hb (opener_eq ha hb h)
      rw [stringify, stringify] at h
      obtain ⟨rfl, hr⟩ := quote_append h
      exact ⟨rfl, hr⟩
  | .array [], b, r, r', ha, hb, h => by
      cases sameKind_of_opener ha hb (opener_eq ha hb h) with
      | array _ fs =>
          cases fs with
          | nil => exact ⟨rfl, List.append_cancel_left h⟩
          | cons f fs =>
              rw [numberless, numberlessElements, Bool.and_eq_true] at hb
              simp only [stringify, List.cons_append, List.nil_append, List.append_assoc,
                List.cons.injEq, true_and] at h
              exact absurd h.symm (stringify_ne_bracket hb.1 _ _)
  | .array (e :: es), b, r, r', ha, hb, h => by
      cases sameKind_of_opener ha hb (opener_eq ha hb h) with
      | array _ fs =>
          rw [numberless, numberlessElements, Bool.and_eq_true] at ha
          cases fs with
          | nil =>
              simp only [stringify, List.cons_append, List.nil_append, List.append_assoc,
                List.cons.injEq, true_and] at h
              exact absurd h (stringify_ne_bracket ha.1 _ _)
          | cons f fs =>
              rw [numberless, numberlessElements, Bool.and_eq_true] at hb
              rw [stringify, stringify, List.cons_append, List.cons_append, List.append_assoc,
                List.append_assoc, List.cons.injEq] at h
              obtain ⟨rfl, hrest⟩ := stringify_append e f _ _ ha.1 hb.1 h.2
              obtain ⟨rfl, hr⟩ := stringifyElements_append es fs _ _ ha.2 hb.2 hrest
              exact ⟨rfl, hr⟩
  | .object [], b, r, r', ha, hb, h => by
      cases sameKind_of_opener ha hb (opener_eq ha hb h) with
      | object _ ns =>
          cases ns with
          | nil => exact ⟨rfl, List.append_cancel_left h⟩
          | cons n ns =>
              obtain ⟨name, value⟩ := n
              simp [stringify, quote] at h
  | .object ((name, value) :: ms), b, r, r', ha, hb, h => by
      cases sameKind_of_opener ha hb (opener_eq ha hb h) with
      | object _ ns =>
          rw [numberless, numberlessMembers, Bool.and_eq_true] at ha
          cases ns with
          | nil => simp [stringify, quote] at h
          | cons n ns =>
              obtain ⟨name', value'⟩ := n
              rw [numberless, numberlessMembers, Bool.and_eq_true] at hb
              rw [stringify, stringify] at h
              simp only [List.cons_append, List.append_assoc, List.cons.injEq, true_and] at h
              obtain ⟨rfl, hvalue⟩ := quote_append h
              obtain ⟨rfl, hrest⟩ :=
                stringify_append value value' _ _ ha.1 hb.1 (List.cons.inj hvalue).2
              obtain ⟨rfl, hr⟩ := stringifyMembers_append ms ns _ _ ha.2 hb.2 hrest
              exact ⟨rfl, hr⟩

theorem stringifyElements_append :
    ∀ (es fs : List Json) (r r' : JsString), numberlessElements es = true →
    numberlessElements fs = true → stringifyElements es ++ r = stringifyElements fs ++ r' →
      es = fs ∧ r = r'
  | [], [], _, _, _, _, h => ⟨rfl, List.append_cancel_left h⟩
  | [], f :: fs, r, r', _, _, h => by
      rw [stringifyElements, stringifyElements] at h
      exact absurd (List.cons.inj h).1 (by decide)
  | e :: es, [], r, r', _, _, h => by
      rw [stringifyElements, stringifyElements] at h
      exact absurd (List.cons.inj h).1 (by decide)
  | e :: es, f :: fs, r, r', he, hf, h => by
      rw [numberlessElements, Bool.and_eq_true] at he hf
      rw [stringifyElements, stringifyElements, List.cons_append, List.cons_append,
        List.append_assoc, List.append_assoc, List.cons.injEq] at h
      obtain ⟨rfl, hrest⟩ := stringify_append e f _ _ he.1 hf.1 h.2
      obtain ⟨rfl, hr⟩ := stringifyElements_append es fs _ _ he.2 hf.2 hrest
      exact ⟨rfl, hr⟩

theorem stringifyMembers_append : ∀ (ms ns : List (JsString × Json)) (r r' : JsString),
    numberlessMembers ms = true → numberlessMembers ns = true →
    stringifyMembers ms ++ r = stringifyMembers ns ++ r' → ms = ns ∧ r = r'
  | [], [], _, _, _, _, h => ⟨rfl, List.append_cancel_left h⟩
  | [], (name, value) :: ns, r, r', _, _, h => by
      rw [stringifyMembers, stringifyMembers] at h
      exact absurd (List.cons.inj h).1 (by decide)
  | (name, value) :: ms, [], r, r', _, _, h => by
      rw [stringifyMembers, stringifyMembers] at h
      exact absurd (List.cons.inj h).1 (by decide)
  | (name, value) :: ms, (name', value') :: ns, r, r', hm, hn, h => by
      rw [numberlessMembers, Bool.and_eq_true] at hm hn
      rw [stringifyMembers, stringifyMembers] at h
      simp only [List.cons_append, List.append_assoc, List.cons.injEq, true_and] at h
      obtain ⟨rfl, hvalue⟩ := quote_append h
      obtain ⟨rfl, hrest⟩ := stringify_append value value' _ _ hm.1 hn.1 (List.cons.inj hvalue).2
      obtain ⟨rfl, hr⟩ := stringifyMembers_append ms ns _ _ hm.2 hn.2 hrest
      exact ⟨rfl, hr⟩

end

/-- Different values have different texts. -/
theorem stringify_injective {a b : Json} (ha : a.numberless = true) (hb : b.numberless = true)
    (h : a.stringify = b.stringify) : a = b :=
  (stringify_append a b [] [] ha hb (by rw [List.append_nil, List.append_nil, h])).1

end Json

end ResendConversation
