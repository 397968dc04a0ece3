import ResendConversation.Attachments
import ResendConversation.Foundation.Utf8
import ResendConversation.LetterCase

/-! # Download headers

`buildContentDisposition` puts the name of an attachment into a response header twice: as a
quoted string without the characters that could end it, and percent-encoded.  The names come
from remote senders through `normalizeFilename`, the content types through
`normalizeContentType`. -/

namespace ResendConversation

open Foundation JsString

/-! ### The header -/

/-- The characters that `encodeURIComponent` leaves as they are. -/
def isUriUnreserved (n : ℕ) : Bool :=
  n < 128 && (isUpperLetter n.toUInt16 || isLowerLetter n.toUInt16 || isDigit n.toUInt16 ||
    (js "-_.!~*'()").contains n.toUInt16)

/-- A digit of an octet, in upper case. -/
def octetDigit (n : ℕ) : UInt16 := if n < 10 then (48 + n).toUInt16 else (55 + n).toUInt16

def percentEncode (octet : ℕ) : JsString := [37, octetDigit (octet / 16), octetDigit (octet % 16)]

/-- A lone surrogate has no encoding. -/
def encodeCodePoint (n : ℕ) : Option JsString :=
  if isUriUnreserved n then some [n.toUInt16]
  else if 0xD800 ≤ n ∧ n ≤ 0xDFFF then none
  else some ((Utf8.encode n).flatMap percentEncode)

/-- `encodeURIComponent`; `none` is the error that it throws. -/
def encodeURIComponent (s : JsString) : Option JsString :=
  ((codePoints s).mapM encodeCodePoint).map List.flatten

/-- `filename.replace(/[^\x20-\x7e]/g, '_').replaceAll('"', '')`. -/
def asciiFallback (filename : JsString) : JsString :=
  (filename.map fun c => if 32 ≤ c && c ≤ 126 then c else 95).filter (· != 34)

def buildContentDisposition (filename : JsString) : Option JsString :=
  (encodeURIComponent filename).map fun encoded =>
    js "attachment; filename=\"" ++ asciiFallback filename ++ js "\"; filename*=UTF-8''" ++ encoded

/-! ### Reading a header -/

/-- What follows a text that the string must start with. -/
def after (text s : JsString) : Option JsString :=
  if text.isPrefixOf s then some (s.drop text.length) else none

/-- The text of a quoted string after its opening mark, and what follows its closing mark.  A
backslash quotes the character after it. -/
def readQuoted : JsString → Option (JsString × JsString)
  | [] => none
  | [c] => if c = 34 then some ([], []) else none
  | c :: d :: s =>
      if c = 34 then some ([], d :: s)
      else if c = 92 then (readQuoted s).map fun r => (d :: r.1, r.2)
      else (readQuoted (d :: s)).map fun r => (c :: r.1, r.2)

/-- The `attr-char` of RFC 5987. -/
def isAttrChar (c : UInt16) : Bool :=
  isUpperLetter c || isLowerLetter c || isDigit c || (js "!#$&+-.^_\x60|~").contains c

def hexValue (c : UInt16) : Option ℕ :=
  if isDigit c then some (c.toNat - 48)
  else if 65 ≤ c && c ≤ 70 then some (c.toNat - 55)
  else if 97 ≤ c && c ≤ 102 then some (c.toNat - 87)
  else none

/-- The octets of the `value-chars` of RFC 5987: attribute characters and percent-encoded
octets. -/
def readValueChars : JsString → Option (List ℕ)
  | [] => some []
  | 37 :: h :: l :: s =>
      (hexValue h).bind fun high => (hexValue l).bind fun low =>
        (readValueChars s).map ((high * 16 + low) :: ·)
  | c :: s => if isAttrChar c then (readValueChars s).map (c.toNat :: ·) else none

/-- The name in the `filename*` parameter. -/
def readExtValue (value : JsString) : Option JsString := do
  let octets ← readValueChars value
  let points ← Utf8.decode octets
  pure (points.flatMap fromCodePoint)

/-- The values of the two parameters of a header. -/
def readContentDisposition (header : JsString) : Option (JsString × JsString) := do
  let s ← after (js "attachment; filename=\"") header
  let (quoted, s) ← readQuoted s
  let value ← after (js "; filename*=UTF-8''") s
  let name ← readExtValue value
  pure (quoted, name)

/-- The pattern `type/subtype` of `CONTENT_TYPE_PATTERN`. -/
def isContentType (s : JsString) : Bool :=
  match split 47 s with
  | [type, subtype] => isContentTypeToken type && isContentTypeToken subtype
  | _ => false

/-! ### Percent encoding -/

theorem hexValue_octetDigit : ∀ n < 16, hexValue (octetDigit n) = some n := by decide

theorem octetDigit_printable : ∀ n < 16, 32 ≤ (octetDigit n).toNat ∧ (octetDigit n).toNat ≤
    126 := by decide

theorem readValueChars_percent {octet : ℕ} (h : octet < 256) (s : JsString) :
    readValueChars (percentEncode octet ++ s) = (readValueChars s).map (octet :: ·) := by
  have hvalue : octet / 16 * 16 + octet % 16 = octet := by omega
  simp only [percentEncode, List.cons_append, List.nil_append, readValueChars,
    hexValue_octetDigit _ (show octet / 16 < 16 by omega),
      hexValue_octetDigit _ (show octet % 16 < 16 by omega)]
  cases readValueChars s with
  | none => rfl
  | some octets => exact congrArg (fun n => some (n :: octets)) hvalue

theorem readValueChars_octets {octets : List ℕ} (h : ∀ o ∈ octets, o < 256) (s : JsString) :
    readValueChars (octets.flatMap percentEncode ++ s) = (readValueChars s).map (octets ++ ·) := by
  induction octets with
  | nil => simp
  | cons o octets ih =>
      rw [List.flatMap_cons, List.append_assoc, readValueChars_percent (h o List.mem_cons_self),
        ih fun p hp => h p (List.mem_cons_of_mem o hp), Option.map_map]
      rfl

theorem readValueChars_cons {c : UInt16} (hc : c ≠ 37) (s : JsString) :
    readValueChars (c :: s) = if isAttrChar c then (readValueChars s).map
    (c.toNat :: ·) else none := by
  rw [readValueChars]
  intro h l t heq
  exact absurd heq hc

/-- The characters that `encodeURIComponent` leaves and RFC 5987 does not admit: `'()*`. -/
def isBareReserved (n : ℕ) : Bool := 39 ≤ n && n ≤ 42

theorem isAttrChar_unreserved : ∀ n < 128, isUriUnreserved n = true →
    n.toUInt16 ≠ 37 ∧ isAttrChar n.toUInt16 = !isBareReserved n ∧ 32 ≤ n ∧ n ≤ 126 := by
  decide +kernel

theorem isUriUnreserved_of_isBareReserved : ∀ n < 128, isBareReserved n = true →
    isUriUnreserved n = true := by
  decide +kernel

theorem isUriUnreserved_lt {n : ℕ} (h : isUriUnreserved n = true) : n < 128 := by
  simp only [isUriUnreserved, Bool.and_eq_true, decide_eq_true_eq] at h
  exact h.1

/-- A code point is read back unless it is one of `'()*`. -/
theorem readValueChars_encodeCodePoint {n : ℕ} {p : JsString} (hn : n < 0x110000)
    (h : encodeCodePoint n = some p) (s : JsString) :
    readValueChars (p ++ s) = if isBareReserved n then none else (readValueChars s).map
      (Utf8.encode n ++ ·) := by
  unfold encodeCodePoint at h
  split at h
  next hunreserved =>
    have hlt := isUriUnreserved_lt hunreserved
    obtain ⟨hpercent, hattr, -⟩ := isAttrChar_unreserved n hlt hunreserved
    rw [Option.some.injEq] at h
    rw [← h, List.singleton_append, readValueChars_cons hpercent, hattr, Utf8.encode_ascii hlt,
      toNat_toUInt16 (by omega)]
    cases isBareReserved n <;> rfl
  next hreserved =>
    split at h
    · cases h
    · rw [Option.some.injEq] at h
      have hbare : isBareReserved n = false := by
        by_contra hbare
        rw [Bool.not_eq_false] at hbare
        have hbounds := hbare
        simp only [isBareReserved, Bool.and_eq_true, decide_eq_true_eq] at hbounds
        exact hreserved (isUriUnreserved_of_isBareReserved n (by omega) hbare)
      rw [← h, readValueChars_octets (fun o ho => Utf8.encode_lt hn ho), hbare]
      rfl

theorem encodeCodePoint_isSome {n : ℕ} : (encodeCodePoint n).isSome ↔
    ¬(0xD800 ≤ n ∧ n ≤ 0xDFFF) := by
  unfold encodeCodePoint
  split
  next h =>
    have hlt := isUriUnreserved_lt h
    simp only [Option.isSome_some, true_iff]
    omega
  next =>
    split
    next h => simp [h]
    next h => simpa using h

theorem encodeCodePoints_isSome (l : List ℕ) :
    (l.mapM encodeCodePoint).isSome ↔ ∀ n ∈ l, ¬(0xD800 ≤ n ∧ n ≤ 0xDFFF) := by
  induction l with
  | nil => simp
  | cons n l ih =>
      rw [List.mapM_cons, List.forall_mem_cons, ← ih, ← encodeCodePoint_isSome]
      cases encodeCodePoint n with
      | none => simp
      | some p => cases l.mapM encodeCodePoint <;> simp

/-- The code points of a string are read back unless one of `'()*` is among them. -/
theorem readValueChars_pieces {l : List ℕ} (hl : ∀ n ∈ l, n < 0x110000) {pieces : List JsString}
    (h : l.mapM encodeCodePoint = some pieces) :
    readValueChars pieces.flatten =
      if l.any isBareReserved then none else some (l.flatMap Utf8.encode) := by
  induction l generalizing pieces with
  | nil =>
      rw [List.mapM_nil, Option.pure_def, Option.some.injEq] at h
      rw [← h]
      rfl
  | cons n l ih =>
      rw [List.mapM_cons] at h
      obtain ⟨p, hp, h⟩ := Option.bind_eq_some_iff.mp h
      obtain ⟨ps, hps, h⟩ := Option.bind_eq_some_iff.mp h
      rw [Option.pure_def, Option.some.injEq] at h
      rw [← h, List.flatten_cons, readValueChars_encodeCodePoint (hl n List.mem_cons_self) hp,
        ih (fun m hm => hl m (List.mem_cons_of_mem n hm)) hps, List.any_cons, List.flatMap_cons]
      cases isBareReserved n with
      | true => rfl
      | false => cases l.any isBareReserved <;> rfl

/-! ### Names -/

/-- A name that the header can carry: every surrogate has its partner, and none of `'()*`. -/
structure Encodable (s : JsString) : Prop where
  paired : ∀ n ∈ codePoints s, ¬(0xD800 ≤ n ∧ n ≤ 0xDFFF)
  admitted : ∀ c ∈ s, c ∉ js "'()*"

/-- A character that is no surrogate is a code point of its string. -/
theorem mem_codePoints {s : JsString} {n : ℕ} (hn : n < 0xD800) : n ∈ codePoints s ↔
    n.toUInt16 ∈ s := by
  conv_rhs => rw [← flatMap_codePoints s]
  rw [List.mem_flatMap]
  constructor
  · intro h
    exact ⟨n, h, by rw [fromCodePoint, if_pos (by omega)]; exact List.mem_singleton_self _⟩
  · rintro ⟨m, hm, hunit⟩
    have hbound := (settled_codePoints s).bounded m hm
    unfold fromCodePoint at hunit
    split at hunit
    next hsmall =>
      have heq := congrArg UInt16.toNat (List.mem_singleton.mp hunit)
      rw [toNat_toUInt16 (by omega), toNat_toUInt16 hsmall] at heq
      exact heq ▸ hm
    next hlarge =>
      -- the units of a pair are surrogates
      simp only [List.mem_cons, List.not_mem_nil, or_false] at hunit
      rcases hunit with hunit | hunit
      · have heq := congrArg UInt16.toNat hunit
        rw [toNat_toUInt16 (by omega), toNat_toUInt16 (by omega)] at heq
        omega
      · have heq := congrArg UInt16.toNat hunit
        rw [toNat_toUInt16 (by omega), toNat_toUInt16 (by omega)] at heq
        omega

theorem any_isBareReserved {s : JsString} :
    (codePoints s).any isBareReserved = false ↔ ∀ c ∈ s, c ∉ js "'()*" := by
  have hunits : ∀ n < 128, isBareReserved n = true → n.toUInt16 ∈ js "'()*" := by decide
  have hpoints : ∀ c ∈ js "'()*", isBareReserved c.toNat = true ∧ c.toNat < 128 :=
    forall_mem_of_all (by decide)
  rw [← Bool.not_eq_true, List.any_eq_true]
  constructor
  · intro h c hc hmem
    obtain ⟨hbare, hlt⟩ := hpoints c hmem
    refine h ⟨c.toNat, (mem_codePoints (by omega)).mpr ?_, hbare⟩
    simpa using hc
  · rintro h ⟨n, hn, hbare⟩
    have hbounds := hbare
    simp only [isBareReserved, Bool.and_eq_true, decide_eq_true_eq] at hbounds
    exact h n.toUInt16 ((mem_codePoints (by omega)).mp hn) (hunits n (by omega) hbare)

theorem encodeURIComponent_isSome (s : JsString) :
    (encodeURIComponent s).isSome ↔ ∀ n ∈ codePoints s, ¬(0xD800 ≤ n ∧ n ≤ 0xDFFF) := by
  rw [encodeURIComponent, Option.isSome_map, encodeCodePoints_isSome]

/-- The encoded name is read back if and only if the name has none of `'()*`. -/
theorem readExtValue_encoded {s encoded : JsString} (h : encodeURIComponent s = some encoded) :
    readExtValue encoded = if (codePoints s).any isBareReserved then none else some s := by
  have hpaired := (encodeURIComponent_isSome s).mp (h ▸ rfl)
  have hbounded := (settled_codePoints s).bounded
  obtain ⟨pieces, hpieces, rfl⟩ := Option.map_eq_some_iff.mp h
  unfold readExtValue
  rw [readValueChars_pieces hbounded hpieces]
  split
  next => rfl
  next =>
    have hscalar : ∀ n ∈ codePoints s, Utf8.Scalar n := by
      intro n hn
      have hbound := hbounded n hn
      have hnot := hpaired n hn
      unfold Utf8.Scalar
      omega
    rw [Option.bind_eq_bind, Option.bind_some, Utf8.decode_flatMap_encode hscalar, Option.bind_some,
      flatMap_codePoints]
    rfl

/-! ### The quoted name -/

theorem after_append (text s : JsString) : after text (text ++ s) = some s := by
  rw [after, if_pos (List.isPrefixOf_iff_prefix.mpr (List.prefix_append text s)), List.drop_left]

theorem readQuoted_append {name : JsString} (h : ∀ c ∈ name, c ≠ 34 ∧ c ≠ 92) (s : JsString) :
    readQuoted (name ++ 34 :: s) = some (name, s) := by
  induction name with
  | nil => cases s <;> rfl
  | cons c name ih =>
      obtain ⟨hquote, hbackslash⟩ := h c List.mem_cons_self
      have ih := ih fun d hd => h d (List.mem_cons_of_mem c hd)
      cases hrest : name ++ 34 :: s with
      | nil => simp at hrest
      | cons d t =>
          rw [List.cons_append, hrest, readQuoted, if_neg hquote, if_neg hbackslash, ← hrest, ih]
          rfl

theorem mem_asciiFallback {s : JsString} {c : UInt16} (h : c ∈ asciiFallback s) :
    (c ∈ s ∨ c = 95) ∧ c ≠ 34 ∧ 32 ≤ c.toNat ∧ c.toNat ≤ 126 := by
  rw [asciiFallback, List.mem_filter, List.mem_map] at h
  obtain ⟨⟨d, hd, heq⟩, hquote⟩ := h
  have hquote : c ≠ 34 := by simpa using hquote
  split at heq
  next hprintable =>
    rw [Bool.and_eq_true, decide_eq_true_eq, decide_eq_true_eq, UInt16.le_iff_toNat_le,
      UInt16.le_iff_toNat_le]
      at hprintable
    exact ⟨.inl (heq ▸ hd), hquote, heq ▸ hprintable⟩
  next => exact ⟨.inr heq.symm, hquote, by rw [← heq]; decide⟩

/-- A header for a name without backslashes is read back if and only if the encoded name is. -/
theorem readContentDisposition_built {name encoded : JsString} (hname : ∀ c ∈ name, c ≠ 92) :
    readContentDisposition
      (js "attachment; filename=\"" ++ asciiFallback name ++
        js "\"; filename*=UTF-8''" ++ encoded) =
      (readExtValue encoded).map fun value => (asciiFallback name, value) := by
  have hplain : ∀ c ∈ asciiFallback name, c ≠ 34 ∧ c ≠ 92 := by
    intro c hc
    obtain ⟨hmem | rfl, hquote, -⟩ := mem_asciiFallback hc
    · exact ⟨hquote, hname c hmem⟩
    · exact ⟨hquote, by decide⟩
  have hsplit : js "\"; filename*=UTF-8''" = 34 :: js "; filename*=UTF-8''" := rfl
  rw [readContentDisposition, List.append_assoc, List.append_assoc, after_append, hsplit,
    List.cons_append]
  simp only [Option.bind_eq_bind, Option.bind_some, readQuoted_append hplain, after_append]
  cases readExtValue encoded <;> rfl

/-! ### Pieces of a string -/

/-- The pieces of a string, joined, give it back, and none has the separator. -/
theorem split_pieces (separator : UInt16) (s : JsString) :
    join [separator] (split separator s) = s ∧ (∀ w ∈ split separator s, separator ∉ w) ∧
      split separator s ≠ [] := by
  induction s with
  | nil => simp [split, join]
  | cons c s ih =>
      obtain ⟨hjoin, hfree, hne⟩ := ih
      rw [split]
      by_cases hc : c = separator
      · subst hc
        rw [if_pos (beq_self_eq_true c)]
        refine ⟨?_, ?_, by simp⟩
        · cases hsplit : split c s with
          | nil => exact absurd hsplit hne
          | cons w ws =>
              rw [hsplit] at hjoin
              rw [join, hjoin]
              · rfl
              · simp
        · intro w hw
          rcases List.mem_cons.mp hw with rfl | hw
          · simp
          · exact hfree w hw
      · rw [if_neg (by simpa using hc)]
        cases hsplit : split separator s with
        | nil => exact absurd hsplit hne
        | cons w ws =>
            rw [hsplit] at hjoin hfree
            refine ⟨?_, ?_, by simp⟩
            · cases ws with
              | nil => rw [join] at hjoin ⊢; rw [hjoin]
              | cons v ws =>
                  rw [join] at hjoin ⊢
                  · rw [← hjoin]
                    rfl
                  · simp
                  · simp
            · intro v hv
              rcases List.mem_cons.mp hv with rfl | hv
              · rw [List.mem_cons, not_or]
                exact ⟨fun h => hc h.symm, hfree w List.mem_cons_self⟩
              · exact hfree v (List.mem_cons_of_mem w hv)

theorem split_of_notMem {separator : UInt16} {s : JsString} (h : separator ∉ s) :
    split separator s = [s] := by
  induction s with
  | nil => rfl
  | cons c s ih =>
      rw [List.mem_cons, not_or] at h
      rw [split, if_neg (by simpa using fun heq => h.1 heq.symm), ih h.2]

theorem split_append_cons {separator : UInt16} {w : JsString} (h : separator ∉ w) (s : JsString) :
    split separator (w ++ separator :: s) = w :: split separator s := by
  induction w with
  | nil => rw [List.nil_append, split, if_pos (beq_self_eq_true _)]
  | cons c w ih =>
      rw [List.mem_cons, not_or] at h
      rw [List.cons_append, split, if_neg (by simpa using fun heq => h.1 heq.symm), ih h.2]

theorem split_eq_pair {separator : UInt16} {s v w : JsString} (h : split separator s = [v, w]) :
    s = v ++ separator :: w ∧ separator ∉ v ∧ separator ∉ w := by
  obtain ⟨hjoin, hfree, -⟩ := split_pieces separator s
  rw [h] at hjoin hfree
  refine ⟨?_, hfree v (by simp), hfree w (by simp)⟩
  rw [← hjoin]
  simp [join]

theorem mem_join_of_mem {separator : JsString} {ws : List JsString} {w : JsString} {c : UInt16}
    (hw : w ∈ ws) (hc : c ∈ w) : c ∈ join separator ws := by
  induction ws with
  | nil => cases hw
  | cons v ws ih =>
      cases ws with
      | nil => rwa [join, ← List.mem_singleton.mp hw]
      | cons u ws =>
          rw [join]
          · rcases List.mem_cons.mp hw with rfl | hw
            · simp [hc]
            · simp [ih hw]
          · simp

/-! ### Normalized names -/

/-- What `normalizeFilename` keeps of a name before it falls back to the default. -/
def keptFilename (value : JsString) : JsString :=
  (trim (stripControlCharacters ((split 47 (replaceAll 92 [47] value)).getLastD []))).take
    maxFilenameLength

/-- The last component of a path has no backslash. -/
theorem keptFilename_plain {value : JsString} : ∀ c ∈ keptFilename value, c ≠ 92 := by
  intro c hc
  have hkept := (List.mem_filter.mp (trim_subset _ c (List.mem_of_mem_take hc))).1
  obtain ⟨hjoin, hfree, hne⟩ := split_pieces 47 (replaceAll 92 [47] value)
  rw [List.getLastD_eq_getLast?, List.getLast?_eq_some_getLast hne, Option.getD_some] at hkept
  have hmem : c ∈ join [47] (split 47 (replaceAll 92 [47] value)) :=
    mem_join_of_mem (List.getLast_mem hne) hkept
  rw [hjoin, replaceAll, List.mem_flatMap] at hmem
  obtain ⟨d, -, hd⟩ := hmem
  rintro rfl
  split at hd
  · simp at hd
  next hne => exact hne (by simpa using (List.mem_singleton.mp hd).symm)

/-- The default name and the names that it replaces can be carried, so only the kept part of a
name decides. -/
theorem normalizeFilename_cases (value : JsString) :
    normalizeFilename (some value) = keptFilename value ∨
      (normalizeFilename (some value) = defaultFilename ∧ Encodable (keptFilename value)) := by
  unfold normalizeFilename keptFilename
  dsimp only
  generalize trim (stripControlCharacters ((split 47 (replaceAll 92 [47] value)).getLastD [])) =
    sanitized
  by_cases hempty : sanitized.isEmpty ∨ sanitized = js "." ∨ sanitized = js ".."
  · rw [if_pos hempty]
    refine .inr ⟨rfl, ?_⟩
    rcases hempty with hempty | rfl | rfl
    · rw [List.isEmpty_iff.mp hempty]
      exact ⟨by decide, forall_mem_of_all (by decide)⟩
    · exact ⟨by decide, forall_mem_of_all (by decide)⟩
    · exact ⟨by decide, forall_mem_of_all (by decide)⟩
  · rw [if_neg hempty]
    exact .inl rfl

theorem encodable_defaultFilename :
    Encodable defaultFilename := ⟨by decide, forall_mem_of_all (by decide)⟩

theorem encodable_normalizeFilename (value : JsString) :
    Encodable (normalizeFilename (some value)) ↔ Encodable (keptFilename value) := by
  rcases normalizeFilename_cases value with heq | ⟨heq, hkept⟩
  · rw [heq]
  · rw [heq]
    exact iff_of_true encodable_defaultFilename hkept

theorem normalizeFilename_plain (filename : Option JsString) :
    ∀ c ∈ normalizeFilename filename, c ≠ 92 := by
  have hdefault : ∀ c ∈ defaultFilename, c ≠ 92 := forall_mem_of_all (by decide)
  cases filename with
  | none => exact hdefault
  | some value =>
      rcases normalizeFilename_cases value with heq | ⟨heq, -⟩
      · rw [heq]
        exact keptFilename_plain
      · rw [heq]
        exact hdefault

/-! ### The headers of a download -/

/-- The headers that the download route builds for an attachment with the given file name and
content type. -/
structure DownloadHeaders (toLowerCase : JsString → JsString)
    (filename contentType : Option JsString) : Prop where
  /-- The header is printable, its quoted name ends where the builder closes it, and the other
  parameter reads as the name. -/
  disposition : ∃ header, buildContentDisposition (normalizeFilename filename) = some header ∧
    (∀ c ∈ header, 32 ≤ c ∧ c ≤ 126) ∧ readContentDisposition header =
      some (asciiFallback (normalizeFilename filename), normalizeFilename filename)
  contentType_length : (normalizeContentType toLowerCase contentType).length ≤ 255
  contentType_pattern : isContentType (normalizeContentType toLowerCase contentType) = true

/-- If a content type has the form `type/subtype`, the cut leaves something of the subtype. -/
def FitsContentType (toLowerCase : JsString → JsString) (value : JsString) : Prop :=
  ∀ type subtype, split 47 (toLowerCase (trim ((split 59 value).headD []))) = [type, subtype] →
    isContentTypeToken type = true → isContentTypeToken subtype = true →
      type.length + 1 < maxContentTypeLength

theorem encodeCodePoint_printable {n : ℕ} {p : JsString} (hn : n < 0x110000)
    (h : encodeCodePoint n = some p) :
    ∀ c ∈ p, 32 ≤ c.toNat ∧ c.toNat ≤ 126 := by
  unfold encodeCodePoint at h
  split at h
  next hunreserved =>
    have hlt := isUriUnreserved_lt hunreserved
    obtain ⟨-, -, hbounds⟩ := isAttrChar_unreserved n hlt hunreserved
    rw [Option.some.injEq] at h
    intro c hc
    rw [← h, List.mem_singleton] at hc
    rw [hc, toNat_toUInt16 (by omega)]
    exact hbounds
  next =>
    split at h
    · cases h
    · rw [Option.some.injEq] at h
      intro c hc
      rw [← h, List.mem_flatMap] at hc
      obtain ⟨octet, hoctet, hc⟩ := hc
      have hlt := Utf8.encode_lt hn hoctet
      simp only [percentEncode, List.mem_cons, List.not_mem_nil, or_false] at hc
      rcases hc with rfl | rfl | rfl
      · decide
      · exact octetDigit_printable _ (by omega)
      · exact octetDigit_printable _ (by omega)

theorem mem_of_encodeCodePoints {l : List ℕ} {pieces : List JsString}
    (h : l.mapM encodeCodePoint = some pieces) {p : JsString} (hp : p ∈ pieces) :
    ∃ n ∈ l, encodeCodePoint n = some p := by
  induction l generalizing pieces with
  | nil =>
      rw [List.mapM_nil, Option.pure_def, Option.some.injEq] at h
      subst h
      cases hp
  | cons n l ih =>
      rw [List.mapM_cons] at h
      obtain ⟨q, hq, h⟩ := Option.bind_eq_some_iff.mp h
      obtain ⟨qs, hqs, h⟩ := Option.bind_eq_some_iff.mp h
      rw [Option.pure_def, Option.some.injEq] at h
      subst h
      rcases List.mem_cons.mp hp with rfl | hp
      · exact ⟨n, List.mem_cons_self, hq⟩
      · obtain ⟨m, hm, hpiece⟩ := ih hqs hp
        exact ⟨m, List.mem_cons_of_mem n hm, hpiece⟩

theorem buildContentDisposition_printable {name header : JsString}
    (h : buildContentDisposition name = some header) :
    ∀ c ∈ header, 32 ≤ c.toNat ∧ c.toNat ≤ 126 := by
  have hbegin : ∀ c ∈ js "attachment; filename=\"", 32 ≤ c.toNat ∧ c.toNat ≤ 126 :=
    forall_mem_of_all (by decide)
  have hmiddle : ∀ c ∈ js "\"; filename*=UTF-8''", 32 ≤ c.toNat ∧ c.toNat ≤ 126 :=
    forall_mem_of_all (by decide)
  obtain ⟨encoded, hencoded, rfl⟩ := Option.map_eq_some_iff.mp h
  obtain ⟨pieces, hpieces, rfl⟩ := Option.map_eq_some_iff.mp hencoded
  intro c hc
  simp only [List.mem_append] at hc
  rcases hc with ((hc | hc) | hc) | hc
  · exact hbegin c hc
  · exact (mem_asciiFallback hc).2.2
  · exact hmiddle c hc
  · obtain ⟨p, hp, hc⟩ := List.mem_flatten.mp hc
    obtain ⟨n, hn, hpiece⟩ := mem_of_encodeCodePoints hpieces hp
    exact encodeCodePoint_printable ((settled_codePoints name).bounded n hn) hpiece c hc

/-- The header of a name is built and read back if and only if the name can be carried. -/
theorem disposition_iff {name : JsString} (hname : ∀ c ∈ name, c ≠ 92) :
    (∃ header, buildContentDisposition name = some header ∧ (∀ c ∈ header, 32 ≤ c ∧ c ≤ 126) ∧
      readContentDisposition header = some (asciiFallback name, name)) ↔ Encodable name := by
  constructor
  · rintro ⟨header, hbuilt, -, hread⟩
    obtain ⟨encoded, hencoded, rfl⟩ := Option.map_eq_some_iff.mp hbuilt
    rw [readContentDisposition_built hname, readExtValue_encoded hencoded] at hread
    refine ⟨(encodeURIComponent_isSome name).mp (hencoded ▸ rfl), any_isBareReserved.mp ?_⟩
    by_contra hbare
    rw [Bool.not_eq_false] at hbare
    rw [if_pos hbare] at hread
    cases hread
  · intro h
    obtain ⟨encoded, hencoded⟩ :=
      Option.isSome_iff_exists.mp ((encodeURIComponent_isSome name).mpr h.paired)
    have hbuilt : buildContentDisposition name =
        some (js "attachment; filename=\"" ++ asciiFallback name ++ js "\"; filename*=UTF-8''" ++
          encoded) := by
      rw [buildContentDisposition, hencoded]
      rfl
    refine ⟨_, hbuilt, fun c hc => ?_, ?_⟩
    · simpa [UInt16.le_iff_toNat_le] using buildContentDisposition_printable hbuilt c hc
    · rw [readContentDisposition_built hname, readExtValue_encoded hencoded,
        any_isBareReserved.mpr h.admitted]
      rfl

/-! ### Content types -/

theorem isContentType_append {type subtype : JsString} (htype : isContentTypeToken type = true)
    (hsubtype : isContentTypeToken subtype = true) :
    isContentType (type ++ 47 :: subtype) = true := by
  have hfree : ∀ {token : JsString}, isContentTypeToken token = true → 47 ∉ token := by
    intro token htoken hmem
    rw [isContentTypeToken, Bool.and_eq_true] at htoken
    exact absurd (List.all_eq_true.mp htoken.2 47 hmem) (by decide)
  rw [isContentType, split_append_cons (hfree htype), split_of_notMem (hfree hsubtype)]
  simp [htype, hsubtype]

theorem isContentTypeToken_take {token : JsString} {n : ℕ} (h : isContentTypeToken token = true) :
    isContentTypeToken (token.take (n + 1)) = true := by
  rw [isContentTypeToken, Bool.and_eq_true] at h ⊢
  refine ⟨?_, List.all_eq_true.mpr fun c hc => List.all_eq_true.mp h.2 c (List.mem_of_mem_take hc)⟩
  rw [List.head?_take, if_neg (Nat.succ_ne_zero n)]
  exact h.1

/-- A cut within the type, or right after the mark, leaves no `type/subtype`. -/
theorem isContentType_take {type subtype : JsString} (htype : isContentTypeToken type = true)
    (hsubtype : isContentTypeToken subtype = true) {n : ℕ} :
    isContentType ((type ++ 47 :: subtype).take n) = true ↔ type.length + 1 < n := by
  have hfree : 47 ∉ type := by
    intro hmem
    rw [isContentTypeToken, Bool.and_eq_true] at htype
    exact absurd (List.all_eq_true.mp htype.2 47 hmem) (by decide)
  rw [List.take_append]
  constructor
  · intro h
    by_contra hshort
    rcases Nat.lt_or_ge type.length n with hlt | hle
    · -- the mark is the last character
      have hone : n - type.length = 1 := by omega
      rw [List.take_of_length_le hlt.le, hone, List.take_succ_cons, List.take_zero, isContentType,
        split_append_cons hfree, split_of_notMem (by simp)] at h
      simp [isContentTypeToken] at h
    · have hzero : n - type.length = 0 := by omega
      have hcut : 47 ∉ type.take n := fun hmem => hfree (List.mem_of_mem_take hmem)
      rw [hzero, List.take_zero, List.append_nil, isContentType, split_of_notMem hcut] at h
      cases h
  · intro hlong
    obtain ⟨k, hk⟩ : ∃ k, n - type.length = k + 2 := ⟨n - type.length - 2, by omega⟩
    rw [List.take_of_length_le (by omega), hk, List.take_succ_cons]
    exact isContentType_append htype (isContentTypeToken_take hsubtype)

theorem isContentType_default : isContentType defaultContentType = true := by decide

theorem normalizeContentType_length (toLowerCase : JsString → JsString) (value : Option JsString) :
    (normalizeContentType toLowerCase value).length ≤ 255 := by
  have hdefault : defaultContentType.length ≤ 255 := by decide
  cases value with
  | none => exact hdefault
  | some value =>
      unfold normalizeContentType
      dsimp only
      split
      · split
        · exact List.length_take_le _ _
        · exact hdefault
      · exact hdefault

theorem isContentType_normalize (toLowerCase : JsString → JsString) (value : JsString) :
    isContentType (normalizeContentType toLowerCase (some value)) = true ↔
      FitsContentType toLowerCase value := by
  unfold normalizeContentType FitsContentType
  dsimp only
  generalize toLowerCase (trim ((split 59 value).headD [])) = sanitized
  split
  next type subtype hsplit =>
    split
    next htokens =>
      rw [Bool.and_eq_true] at htokens
      obtain ⟨hjoined, -, -⟩ := split_eq_pair hsplit
      rw [hjoined, isContentType_take htokens.1 htokens.2]
      constructor
      · intro hlt type' subtype' hsplit' _ _
        rw [← hjoined, hsplit, List.cons.injEq] at hsplit'
        exact hsplit'.1 ▸ hlt
      · intro h
        exact h type subtype (hjoined ▸ hsplit) htokens.1 htokens.2
    next htokens =>
      refine iff_of_true isContentType_default fun type' subtype' hsplit' htype hsubtype => ?_
      rw [hsplit, List.cons.injEq, List.cons.injEq] at hsplit'
      obtain ⟨rfl, rfl, -⟩ := hsplit'
      simp [htype, hsubtype] at htokens
  next hsplit =>
    exact iff_of_true isContentType_default fun type' subtype' hsplit' =>
      absurd hsplit' (hsplit type' subtype')

/-! ### Hostile metadata -/

/-- The headers are well formed if and only if the kept part of the name has no lone surrogate
and none of `'()*`, and the type of the content type leaves room for the subtype. -/
theorem download_headers_iff (toLowerCase : JsString → JsString)
    (filename contentType : Option JsString) :
    DownloadHeaders toLowerCase filename contentType ↔
      (∀ value, filename = some value → Encodable (keptFilename value)) ∧
        ∀ value, contentType = some value → FitsContentType toLowerCase value := by
  have hname : Encodable (normalizeFilename filename) ↔
      ∀ value, filename = some value → Encodable (keptFilename value) := by
    cases filename with
    | none => exact iff_of_true encodable_defaultFilename (by simp)
    | some value => simp [encodable_normalizeFilename]
  have htype : isContentType (normalizeContentType toLowerCase contentType) = true ↔
      ∀ value, contentType = some value → FitsContentType toLowerCase value := by
    cases contentType with
    | none => exact iff_of_true isContentType_default (by simp)
    | some value => simp [isContentType_normalize]
  have hdisposition := disposition_iff (normalizeFilename_plain filename)
  constructor
  · intro h
    exact ⟨hname.mp (hdisposition.mp h.disposition), htype.mp h.contentType_pattern⟩
  · rintro ⟨hencodable, hfits⟩
    exact ⟨hdisposition.mpr (hname.mpr hencodable),
      normalizeContentType_length toLowerCase contentType, htype.mpr hfits⟩

/-- Parentheses in a name stand bare in the `filename*` parameter. -/
theorem download_headers_broken :
    ¬∀ (toLowerCase : JsString → JsString) (filename contentType : Option JsString),
      DownloadHeaders toLowerCase filename contentType := by
  intro hall
  have hname := (hall id (some (js "report (1).pdf")) none).disposition
  rw [disposition_iff (normalizeFilename_plain _)] at hname
  exact hname.admitted 40 (by decide) (by decide)

end ResendConversation
