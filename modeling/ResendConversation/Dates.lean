import ResendConversation.Inbound
import ResendConversation.Foundation.Calendar
import ResendConversation.Foundation.Digits

/-! # Texts of dates

`toISOString` of a date, and `new Date(text)` of a text.  A date holds the milliseconds since the
epoch, up to `maxTime` before it and after it; `toISOString` throws for any other time, hence the
`none`.  The date of a text in the format of `toISOString` is what the format says; for every other
text it is left to the platform (`other`). -/

namespace ResendConversation

open Foundation JsString

def maxTime : ℤ := 8640000000000000

def msPerDay : ℤ := 86400000

def decimal (width n : ℕ) : JsString := (Digits.digits 10 width n).map hexDigit

/-- Four digits, or a sign and six digits outside of the years 0 to 9999. -/
def isoYear (year : ℤ) : JsString :=
  if 0 ≤ year ∧ year ≤ 9999 then decimal 4 year.natAbs
  else (if year < 0 then 45 else 43) :: decimal 6 year.natAbs

/-- The letters after the year. -/
def isoRest (month day ms : ℕ) : JsString :=
  45 :: (decimal 2 month ++ 45 :: (decimal 2 day ++ 84 :: (decimal 2 (ms / 3600000) ++
    58 :: (decimal 2 (ms / 60000 % 60) ++ 58 :: (decimal 2 (ms / 1000 % 60) ++
      46 :: (decimal 3 (ms % 1000) ++ [90]))))))

def isoText (t : ℤ) : JsString :=
  let date := Calendar.dateOf (t / msPerDay)
  isoYear date.year ++ isoRest date.month.natAbs date.day.natAbs (t % msPerDay).natAbs

/-- `date.toISOString()`. -/
def toISOString (t : ℤ) : Option JsString := if -maxTime ≤ t ∧
    t ≤ maxTime then some (isoText t) else none

/-! ### Reading -/

def takeLetter (c : UInt16) : JsString → Option JsString
  | [] => none
  | d :: s => if d = c then some s else none

def takeNumber (width : ℕ) (s : JsString) : Option (ℕ × JsString) :=
  if width ≤ s.length ∧ (s.take width).all isDigit then
    some (Digits.value 10 ((s.take width).map fun c => c.toNat - 48), s.drop width)
  else none

def takeYear (s : JsString) : Option (ℤ × JsString) :=
  match takeLetter 43 s with
  | some s => (takeNumber 6 s).map fun r => ((r.1 : ℤ), r.2)
  | none =>
      match takeLetter 45 s with
      | some s => ((takeNumber 6 s).filter fun r => r.1 != 0).map fun r => (-(r.1 : ℤ), r.2)
      | none => (takeNumber 4 s).map fun r => ((r.1 : ℤ), r.2)

/-- The letters after the year: month, day, and milliseconds of the day. -/
def takeRest (s : JsString) : Option ((ℕ × ℕ × ℕ) × JsString) := do
  let s ← takeLetter 45 s
  let (month, s) ← takeNumber 2 s
  let s ← takeLetter 45 s
  let (day, s) ← takeNumber 2 s
  let s ← takeLetter 84 s
  let (hour, s) ← takeNumber 2 s
  let s ← takeLetter 58 s
  let (minute, s) ← takeNumber 2 s
  let s ← takeLetter 58 s
  let (second, s) ← takeNumber 2 s
  let s ← takeLetter 46 s
  let (milli, s) ← takeNumber 3 s
  let s ← takeLetter 90 s
  if (1 ≤ month ∧ month ≤ 12) ∧ (1 ≤ day ∧ day ≤ 31) ∧ hour < 24 ∧ minute < 60 ∧ second < 60 then
    some ((month, day, ((hour * 60 + minute) * 60 + second) * 1000 + milli), s)
  else none

/-- The date of a text in the format of `toISOString`. -/
def parseIso (s : JsString) : Option ℤ :=
  match takeYear s with
  | none => none
  | some (year, s) =>
      match takeRest s with
      | some ((month, day, ms), []) =>
          let t := Calendar.dayNumber ⟨year, month, day⟩ * msPerDay + ms
          if -maxTime ≤ t ∧ t ≤ maxTime then some t else none
      | _ => none

/-- `new Date(text)`, or `none` for an invalid date. -/
def dateOfText (other : JsString → Option ℤ) (s : JsString) : Option ℤ := (parseIso s).or (other s)

/-! ### The text of a date is read back -/

theorem toNat_hexDigit : ∀ n < 10, (hexDigit n).toNat - 48 = n := by decide

theorem isDigit_hexDigit : ∀ n < 10, isDigit (hexDigit n) = true := by decide

theorem isDigit_of_mem_decimal {width n : ℕ} : ∀ c ∈ decimal width n, isDigit c = true := by
  intro c hc
  obtain ⟨d, hd, rfl⟩ := List.mem_map.mp hc
  exact isDigit_hexDigit d (Digits.lt_of_mem_digits (by decide) hd)

@[simp] theorem length_decimal (width n : ℕ) : (decimal width n).length = width := by
  simp [decimal]

theorem takeLetter_cons (c : UInt16) (s : JsString) : takeLetter c (c :: s) = some s := by
  simp [takeLetter]

theorem takeLetter_decimal {c : UInt16} (h : isDigit c = false) {width n : ℕ} (hwidth : 0 < width)
    (s : JsString) :
    takeLetter c (decimal width n ++ s) = none := by
  have hlength := length_decimal width n
  cases hd : decimal width n with
  | nil =>
      rw [hd, List.length_nil] at hlength
      omega
  | cons d ds =>
      have hdigit : isDigit d = true :=
        @isDigit_of_mem_decimal width n d (by rw [hd]; exact List.mem_cons_self)
      have hne : d ≠ c := by
        intro heq
        rw [heq, h] at hdigit
        cases hdigit
      rw [List.cons_append, takeLetter, if_neg hne]

theorem takeNumber_decimal {width n : ℕ} (h : n < 10 ^ width) (s : JsString) :
    takeNumber width (decimal width n ++ s) = some (n, s) := by
  have hlength := length_decimal width n
  have htake : (decimal width n ++ s).take width = decimal width n := List.take_left' hlength
  have hdrop : (decimal width n ++ s).drop width = s := List.drop_left' hlength
  have hvalue : (decimal width n).map (fun c => c.toNat - 48) = Digits.digits 10 width n := by
    rw [decimal, List.map_map]
    refine (List.map_congr_left fun d hd => ?_).trans (List.map_id _)
    exact toNat_hexDigit d (Digits.lt_of_mem_digits (by decide) hd)
  rw [takeNumber, htake, hdrop, hvalue, Digits.value_digits_of_lt h, if_pos]
  refine ⟨?_, List.all_eq_true.mpr isDigit_of_mem_decimal⟩
  rw [List.length_append, hlength]
  omega

theorem takeYear_isoYear {year : ℤ} (h : -1000000 < year ∧ year < 1000000) (s : JsString) :
    takeYear (isoYear year ++ s) = some (year, s) := by
  have hbound : year.natAbs < 10 ^ 6 := by
    show year.natAbs < 1000000
    omega
  unfold isoYear takeYear
  by_cases hfour : 0 ≤ year ∧ year ≤ 9999
  · have hbound : year.natAbs < 10 ^ 4 := by
      show year.natAbs < 10000
      omega
    have hvalue : ((year.natAbs : ℕ) : ℤ) = year := by omega
    rw [if_pos hfour, takeLetter_decimal (by decide) (by decide),
      takeLetter_decimal (by decide) (by decide)]
    simp only [takeNumber_decimal hbound, Option.map_some, hvalue]
  · rw [if_neg hfour]
    by_cases hneg : year < 0
    · have hvalue : -((year.natAbs : ℕ) : ℤ) = year := by omega
      have hzero : year.natAbs ≠ 0 := by omega
      have hplus : takeLetter 43 (45 :: (decimal 6 year.natAbs ++ s)) = none := rfl
      rw [if_pos hneg, List.cons_append, hplus, takeLetter_cons]
      simp only [takeNumber_decimal hbound, Option.filter_some, Option.map_some, hvalue,
        bne_iff_ne, hzero, ne_eq, not_false_eq_true, if_true]
    · have hvalue : ((year.natAbs : ℕ) : ℤ) = year := by omega
      rw [if_neg hneg, List.cons_append, takeLetter_cons]
      simp only [takeNumber_decimal hbound, Option.map_some, hvalue]

theorem takeRest_isoRest {month day ms : ℕ} (hmonth : 1 ≤ month ∧ month ≤ 12)
    (hday : 1 ≤ day ∧ day ≤ 31) (hms : ms < 86400000) :
    takeRest (isoRest month day ms) = some ((month, day, ms), []) := by
  have hhour : ms / 3600000 < 24 := by omega
  have hminute : ms / 60000 % 60 < 60 := by omega
  have hsecond : ms / 1000 % 60 < 60 := by omega
  have hmilli : ms % 1000 < 1000 := by omega
  have hsum : ((ms / 3600000 * 60 + ms / 60000 % 60) * 60 + ms / 1000 % 60) * 1000 + ms % 1000 =
    ms := by omega
  have htwo : ∀ {n : ℕ} (s : JsString), n < 100 → takeNumber 2 (decimal 2 n ++ s) = some (n, s) :=
    fun s hn => takeNumber_decimal hn s
  have hthree : ∀ {n : ℕ} (s : JsString), n < 1000 →
      takeNumber 3 (decimal 3 n ++ s) = some (n, s) :=
    fun s hn => takeNumber_decimal hn s
  unfold takeRest isoRest
  simp only [takeLetter_cons, Option.bind_eq_bind, Option.bind_some,
    htwo _ (show month < 100 by omega), htwo _ (show day < 100 by omega),
    htwo _ (show ms / 3600000 < 100 by omega), htwo _ (show ms / 60000 % 60 < 100 by omega),
    htwo _ (show ms / 1000 % 60 < 100 by omega), hthree _ hmilli]
  rw [if_pos ⟨hmonth, hday, hhour, hminute, hsecond⟩, hsum]

/-- The text of a date is read back as the date. -/
theorem parseIso_of_toISOString {t : ℤ} {s : JsString} (h : toISOString t = some s) :
    parseIso s = some t := by
  unfold toISOString at h
  split at h
  next hrange =>
    cases h
    have hdays : -100000000 ≤ t / msPerDay ∧ t / msPerDay ≤ 100000000 := by
      unfold maxTime at hrange
      unfold msPerDay
      omega
    have hyear := Calendar.year_dateOf hdays.1 hdays.2
    have hmonth := Calendar.month_dateOf (t / msPerDay)
    have hday := Calendar.day_dateOf (t / msPerDay)
    have hms : (t % msPerDay).natAbs < 86400000 := by
      unfold msPerDay
      omega
    have hnumber := Calendar.dayNumber_dateOf (t / msPerDay)
    unfold parseIso isoText
    dsimp only
    rw [takeYear_isoYear hyear]
    dsimp only
    rw [takeRest_isoRest (by omega) (by omega) hms]
    dsimp only
    have hmonth' : ((Calendar.dateOf (t / msPerDay)).month.natAbs : ℤ) =
        (Calendar.dateOf (t / msPerDay)).month := by
      omega
    have hday' : ((Calendar.dateOf (t / msPerDay)).day.natAbs : ℤ) =
        (Calendar.dateOf (t / msPerDay)).day := by
      omega
    have ht : t / msPerDay * msPerDay + ((t % msPerDay).natAbs : ℤ) = t := by
      unfold msPerDay
      omega
    rw [hmonth', hday', hnumber, ht, if_pos hrange]
  next => cases h

theorem dateOfText_of_toISOString {other : JsString → Option ℤ} {t : ℤ} {s : JsString}
    (h : toISOString t = some s) : dateOfText other s = some t := by
  rw [dateOfText, parseIso_of_toISOString h, Option.some_or]

end ResendConversation
