import Mathlib.Data.List.TakeWhile
import ResendConversation.JsonParse
import ResendConversation.Normalization
import ResendConversation.Tokens
import ResendConversation.Foundation.Base64
import ResendConversation.Foundation.Utf8
import Mathlib.Data.Prod.Lex

/-! # Cursors

The cursor of a conversation listing is the position behind a row, a time and an identifier, as the
JSON text of a pair of strings in base 64: `encodeSummaryCursor`, `encodeConversationCursor` and
their decoders in `routes/conversations/v2`.  A cursor that was encoded is decoded to the same
position (`decodeCursor_encodeCursor`), and what is decoded names a UUID. -/

namespace ResendConversation

open Foundation JsString Json

/-! ### Buffers -/

/-- `Buffer.from(s)`: a surrogate without a partner becomes U+FFFD. -/
def bufferFrom (s : JsString) : List ℕ :=
  (codePoints s).flatMap fun n => Utf8.encode (if 0xD800 ≤ n ∧ n ≤ 0xDFFF then 0xFFFD else n)

/-- `buffer.toString('utf8')`. -/
def bufferText (octets : List ℕ) : JsString := (Utf8.decodeLossy octets).flatMap fromCodePoint

/-- The letter of a sextet in the URL and filename safe alphabet. -/
def base64UrlLetter (n : ℕ) : UInt16 :=
  if n < 26 then (65 + n).toUInt16
  else if n < 52 then (71 + n).toUInt16
  else if n < 62 then (n - 4).toUInt16
  else if n = 62 then 45
  else 95

/-- The sextet of a letter of either alphabet. -/
def base64Value (c : UInt16) : Option ℕ :=
  if isUpperLetter c then some (c.toNat - 65)
  else if isLowerLetter c then some (c.toNat - 71)
  else if isDigit c then some (c.toNat + 4)
  else if c = 45 ∨ c = 43 then some 62
  else if c = 95 ∨ c = 47 then some 63
  else none

/-- `buffer.toString('base64url')`. -/
def bufferBase64Url (octets : List ℕ) : JsString := (Base64.sextets octets).map base64UrlLetter

/-- `Buffer.from(s, 'base64url')`, which stops at a `=` and passes over what else is no letter of
an alphabet. -/
def bufferFromBase64Url (s : JsString) : List ℕ :=
  Base64.octets ((s.takeWhile (· != 61)).filterMap base64Value)

theorem base64Value_base64UrlLetter :
    ∀ n < 64, base64Value (base64UrlLetter n) = some n := by decide

theorem base64UrlLetter_ne_padding : ∀ n < 64, (base64UrlLetter n != 61) = true := by decide

theorem bufferFromBase64Url_bufferBase64Url {octets : List ℕ} (h : ∀ o ∈ octets, o < 256) :
    bufferFromBase64Url (bufferBase64Url octets) = octets := by
  have hpadding : (bufferBase64Url octets).takeWhile (· != 61) = bufferBase64Url octets := by
    refine List.takeWhile_eq_self_iff.mpr fun c hc => ?_
    obtain ⟨p, hp, rfl⟩ := List.mem_map.mp hc
    exact base64UrlLetter_ne_padding p (Base64.sextets_lt h p hp)
  have hletters : (bufferBase64Url octets).filterMap base64Value = Base64.sextets octets := by
    rw [bufferBase64Url, List.filterMap_map]
    refine (List.filterMap_congr fun p hp => ?_).trans List.filterMap_some
    exact base64Value_base64UrlLetter p (Base64.sextets_lt h p hp)
  rw [bufferFromBase64Url, hpadding, hletters, Base64.octets_sextets h]

/-- The octets of ASCII text are its code units. -/
theorem bufferFrom_ascii {s : JsString} (h : ∀ c ∈ s, c.toNat < 128) :
    bufferFrom s = s.map UInt16.toNat := by
  have hunit : ∀ n ∈ s.map UInt16.toNat,
      Utf8.encode (if 0xD800 ≤ n ∧ n ≤ 0xDFFF then 0xFFFD else n) = [n] := by
    intro n hn
    obtain ⟨c, hc, rfl⟩ := List.mem_map.mp hn
    have hlt := h c hc
    rw [if_neg (by omega), Utf8.encode_ascii (by omega)]
  rw [bufferFrom, codePoints_ascii h, List.flatMap_congr hunit, List.flatMap_singleton']

theorem bufferText_ascii {s : JsString} (h : ∀ c ∈ s, c.toNat < 128) :
    bufferText (s.map UInt16.toNat) = s := by
  have hlossy : Utf8.decodeLossy (s.map UInt16.toNat) = s.map UInt16.toNat := by
    refine Utf8.decodeLossy_ascii fun b hb => ?_
    obtain ⟨c, hc, rfl⟩ := List.mem_map.mp hb
    exact h c hc
  rw [bufferText, hlossy, List.flatMap_map]
  have hunit : ∀ c ∈ s, fromCodePoint c.toNat = [c] := fun c _ => fromCodePoint_unit c
  rw [List.flatMap_congr hunit, List.flatMap_singleton']

/-- ASCII text in base 64 is read back. -/
theorem bufferText_base64Url {s : JsString} (h : ∀ c ∈ s, c.toNat < 128) :
    bufferText (bufferFromBase64Url (bufferBase64Url (bufferFrom s))) = s := by
  have hoctets : ∀ o ∈ bufferFrom s, o < 256 := by
    rw [bufferFrom_ascii h]
    intro o ho
    obtain ⟨c, hc, rfl⟩ := List.mem_map.mp ho
    have hlt := h c hc
    omega
  rw [bufferFromBase64Url_bufferBase64Url hoctets, bufferFrom_ascii h, bufferText_ascii h]

/-! ### Identifiers -/

/-- The identifier that a UUID stands for. -/
def uuidOfText (s : JsString) : Uuid := Digits.value 16 ((s.filter (· != 45)).map hexNumber)

theorem uuidOfText_uuidText {id : Uuid} (h : id < 16 ^ 32) : uuidOfText (uuidText id) = id := by
  have hdigits : (uuidDigits id).map hexNumber = Digits.digits 16 32 id := by
    rw [uuidDigits, List.map_map, Digits.digits]
    refine List.map_congr_left fun i _ => ?_
    exact hexNumber_hexDigit _ (Nat.mod_lt _ (by decide))
  rw [uuidOfText, filter_uuidText, hdigits, Digits.value_digits_of_lt h]

/-- An identifier whose text is a UUID. -/
structure IsUuid (id : Uuid) : Prop where
  bounded : id < 16 ^ 32
  uuid : isUuid (uuidText id) = true

/-! ### The codec -/

/-- `Buffer.from(JSON.stringify([time.toISOString(), id])).toString('base64url')`. -/
def encodeCursor (time : Time) (id : Uuid) : Option JsString :=
  (toISOString time).map fun text =>
    bufferBase64Url (bufferFrom (stringify (array [string text, string (uuidText id)])))

/-- The position of a cursor.  `other` reads the date texts that `toISOString` does not write. -/
def decodeCursor (other : JsString → Option Time) (value : JsString) : Option (Time × Uuid) :=
  match parse (bufferText (bufferFromBase64Url value)) with
  | some (array [string text, string id]) =>
      if isUuid id then (dateOfText other text).map fun time => (time, uuidOfText id) else none
  | _ => none

theorem mem_decimal_lt {width n : ℕ} : ∀ c ∈ decimal width n, c.toNat < 128 := by
  intro c hc
  have hdigit := isDigit_of_mem_decimal c hc
  simp only [isDigit, Bool.and_eq_true, decide_eq_true_eq, UInt16.le_iff_toNat_le] at hdigit
  have : (57 : UInt16).toNat = 57 := rfl
  omega

theorem isoText_ascii (t : ℤ) : ∀ c ∈ isoText t, c.toNat < 128 := by
  intro c hc
  unfold isoText isoYear isoRest at hc
  dsimp only at hc
  rw [List.mem_append] at hc
  rcases hc with hc | hc
  · split at hc
    · exact mem_decimal_lt c hc
    · rw [List.mem_cons] at hc
      rcases hc with rfl | hc
      · split
        · decide
        · decide
      · exact mem_decimal_lt c hc
  · simp only [List.mem_cons, List.mem_append, List.not_mem_nil, or_false] at hc
    rcases hc with rfl | hc | rfl | hc | rfl | hc | rfl | hc | rfl | hc | rfl | hc | rfl
    all_goals first | decide | exact mem_decimal_lt c hc

theorem uuidText_ascii {id : Uuid} (h : IsUuid id) : ∀ c ∈ uuidText id, c.toNat < 128 := by
  intro c hc
  have hlt := isUuid_ascii h.uuid c hc
  rwa [UInt16.lt_iff_toNat_lt] at hlt

/-- The quoted form of ASCII text is ASCII. -/
theorem quote_ascii {s : JsString} (h : ∀ c ∈ s, c.toNat < 128) : ∀ c ∈ quote s, c.toNat < 128 := by
  have hall : ∀ n < 128, (quoteCodePoint n).all (decide <| ·.toNat < 128) = true := by decide
  have hpoint : ∀ n < 128, ∀ c ∈ quoteCodePoint n, c.toNat < 128 := by
    intro n hn
    exact forall_mem_of_all (hall n hn)
  intro c hc
  rw [quote, codePoints_ascii h] at hc
  simp only [List.mem_cons, List.mem_append, List.mem_flatMap, List.mem_map, List.not_mem_nil,
    or_false] at hc
  rcases hc with (rfl | ⟨n, ⟨d, hd, rfl⟩, hc⟩) | rfl
  · decide
  · exact hpoint d.toNat (h d hd) c hc
  · decide

/-- A cursor that was encoded is decoded to the same position. -/
theorem decodeCursor_encodeCursor {other : JsString → Option Time} {time : Time} {id : Uuid}
    (hid : IsUuid id) {cursor : JsString} (h : encodeCursor time id = some cursor) :
    decodeCursor other cursor = some (time, id) := by
  obtain ⟨text, htext, rfl⟩ := Option.map_eq_some_iff.mp h
  have hiso : text = isoText time := by
    unfold toISOString at htext
    split at htext
    · exact (Option.some.inj htext).symm
    · cases htext
  have hascii : ∀ c ∈ stringify (array [string text, string (uuidText id)]), c.toNat < 128 := by
    intro c hc
    simp only [stringify, stringifyElements, List.mem_cons, List.mem_append, List.not_mem_nil,
      or_false] at hc
    rcases hc with rfl | hc | rfl | hc | rfl
    · decide
    · rw [hiso] at hc
      exact quote_ascii (isoText_ascii time) c hc
    · decide
    · exact quote_ascii (uuidText_ascii hid) c hc
    · decide
  have hparse := parse_stringify_strings text [uuidText id]
  rw [List.map_cons, List.map_nil] at hparse
  rw [decodeCursor, bufferText_base64Url hascii, hparse]
  dsimp only
  rw [if_pos hid.uuid, dateOfText_of_toISOString htext, uuidOfText_uuidText hid.bounded]
  rfl

/-- The letters that stand for themselves in a query. -/
def isUrlSafe (c : UInt16) : Bool :=
  isUpperLetter c || isLowerLetter c || isDigit c || c == 45 || c == 95

theorem isUrlSafe_base64UrlLetter : ∀ n < 64, isUrlSafe (base64UrlLetter n) = true := by decide

theorem bufferFrom_lt (s : JsString) : ∀ o ∈ bufferFrom s, o < 256 := by
  intro o ho
  obtain ⟨n, hn, hmem⟩ := List.mem_flatMap.mp ho
  refine Utf8.encode_lt ?_ hmem
  split
  · decide
  · exact (settled_codePoints s).bounded n hn

/-- Every position whose time can be written has a cursor, made of letters that a query holds as
they are; it is decoded to the position, and no other position has it. -/
theorem cursor_codec {time : Time} {id : Uuid} (hid : IsUuid id) :
    ((encodeCursor time id).isSome ↔ -maxTime ≤ time ∧ time ≤ maxTime) ∧
      ∀ cursor, encodeCursor time id = some cursor →
        (∀ c ∈ cursor, isUrlSafe c = true) ∧
          (∀ other, decodeCursor other cursor = some (time, id)) ∧
          ∀ time' id', IsUuid id' → encodeCursor time' id' = some cursor → time' = time ∧
            id' = id := by
  refine ⟨?_, fun cursor hcursor => ⟨?_, fun other => decodeCursor_encodeCursor hid hcursor, ?_⟩⟩
  · rw [encodeCursor, Option.isSome_map, toISOString]
    split
    next hrange => exact iff_of_true rfl hrange
    next hrange => exact iff_of_false (by decide) hrange
  · obtain ⟨text, -, rfl⟩ := Option.map_eq_some_iff.mp hcursor
    intro c hc
    obtain ⟨p, hp, rfl⟩ := List.mem_map.mp hc
    exact isUrlSafe_base64UrlLetter p (Base64.sextets_lt (bufferFrom_lt _) p hp)
  · intro time' id' hid' hcursor'
    have hone : decodeCursor (fun _ => none) cursor = some (time, id) :=
      decodeCursor_encodeCursor hid hcursor
    have htwo : decodeCursor (fun _ => none) cursor = some (time', id') :=
      decodeCursor_encodeCursor hid' hcursor'
    rw [hone, Option.some_inj, Prod.mk.injEq] at htwo
    exact ⟨htwo.1.symm, htwo.2.symm⟩

theorem cursor_codec_reference : ∃ cursor,
    encodeCursor (-1) 0x01910000000070008000000000000001 = some cursor ∧
    decodeCursor (fun _ => none) cursor = some (-1, 0x01910000000070008000000000000001) := by
  have hid : IsUuid 0x01910000000070008000000000000001 := ⟨by decide, by decide +kernel⟩
  obtain ⟨hsome, hdecode⟩ := @cursor_codec (-1) _ hid
  obtain ⟨cursor, hcursor⟩ := Option.isSome_iff_exists.mp (hsome.mpr (by decide))
  exact ⟨cursor, hcursor, (hdecode cursor hcursor).2.1 _⟩

end ResendConversation
