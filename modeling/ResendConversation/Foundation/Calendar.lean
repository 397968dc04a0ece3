import Mathlib.Data.Int.Notation

/-! # The Gregorian calendar

Days are counted from 1 January 1970.  Years start in March in the computation, so that a leap day
ends its year, and are grouped into eras of 400 years, which are 146097 days each. -/

namespace Foundation

namespace Calendar

structure Date where
  year : ℤ
  month : ℤ
  day : ℤ
deriving DecidableEq

/-- The year of an era, of which `doe` days have passed: whole centuries, whole spans of four years,
whole years.  The last of four years, and the last century of an era, may have a day more. -/
def yearOfEra (doe : ℤ) : ℤ :=
  let century := min 3 (doe / 36524)
  let span := (doe - 36524 * century) / 1461
  100 * century + 4 * span + min 3 ((doe - 36524 * century - 1461 * span) / 365)

/-- The days of an era before a year of it. -/
def daysBeforeYear (yoe : ℤ) : ℤ := 365 * yoe + yoe / 4 - yoe / 100

/-- The days of a year before a month of it, which is counted from March. -/
def daysBeforeMonth (mp : ℤ) : ℤ := (153 * mp + 2) / 5

/-- The month, counted from March, of a day of the year. -/
def monthOfYear (doy : ℤ) : ℤ := (5 * doy + 2) / 153

/-- The number of a date. -/
def dayNumber (date : Date) : ℤ :=
  let y := if date.month ≤ 2 then date.year - 1 else date.year
  let mp := if date.month ≤ 2 then date.month + 9 else date.month - 3
  y / 400 * 146097 + daysBeforeYear (y % 400) + daysBeforeMonth mp + (date.day - 1) - 719468

/-- The date of a day of a month, both counted from March. -/
def dateFrom (era yoe mp day : ℤ) : Date where
  year := if mp < 10 then yoe + era * 400 else yoe + era * 400 + 1
  month := if mp < 10 then mp + 3 else mp - 9
  day

/-- The date of a day. -/
def dateOf (n : ℤ) : Date :=
  let doe := (n + 719468) % 146097
  let yoe := yearOfEra doe
  let doy := doe - daysBeforeYear yoe
  let mp := monthOfYear doy
  dateFrom ((n + 719468) / 146097) yoe mp (doy - daysBeforeMonth mp + 1)

/-- A year lies in its era, and a day in its year, which has 366 days at most. -/
theorem yearOfEra_bounds {doe : ℤ} (h : 0 ≤ doe) (h' : doe < 146097) :
    0 ≤ yearOfEra doe ∧ yearOfEra doe < 400 ∧
      0 ≤ doe - daysBeforeYear (yearOfEra doe) ∧ doe - daysBeforeYear (yearOfEra doe) < 366 := by
  unfold daysBeforeYear yearOfEra
  dsimp only
  generalize hcentury : min 3 (doe / 36524) = c
  have hc : 0 ≤ c ∧ c ≤ 3 := by omega
  have hin : 0 ≤ doe - 36524 * c ∧ doe - 36524 * c < 36525 := by omega
  have hleap : doe - 36524 * c = 36524 → c = 3 := by omega
  generalize hspan : (doe - 36524 * c) / 1461 = q
  have hq : 0 ≤ q ∧ q ≤ 24 := by omega
  have hrest : 0 ≤ doe - 36524 * c - 1461 * q ∧ doe - 36524 * c - 1461 * q < 1461 := by omega
  generalize hyears : min 3 ((doe - 36524 * c - 1461 * q) / 365) = y
  have hy : 0 ≤ y ∧ y ≤ 3 := by omega
  have hday : 0 ≤ doe - 36524 * c - 1461 * q - 365 * y ∧ doe - 36524 * c - 1461 * q - 365 * y <
    366 := by omega
  have hfours : (100 * c + 4 * q + y) / 4 = 25 * c + q := by omega
  have hhundreds : (100 * c + 4 * q + y) / 100 = c := by omega
  rw [hfours, hhundreds]
  omega

theorem monthOfYear_bounds {doy : ℤ} (h : 0 ≤ doy) (h' : doy < 366) :
    0 ≤ monthOfYear doy ∧ monthOfYear doy < 12 := by
  unfold monthOfYear
  omega

/-- A day lies in its month, which has 31 days at most. -/
theorem dayOfMonth_bounds (doy : ℤ) :
    0 ≤ doy - daysBeforeMonth (monthOfYear doy) ∧ doy - daysBeforeMonth (monthOfYear doy) < 31 := by
  unfold daysBeforeMonth monthOfYear
  omega

theorem month_dateOf (n : ℤ) : 1 ≤ (dateOf n).month ∧ (dateOf n).month ≤ 12 := by
  have hdoe : 0 ≤ (n + 719468) % 146097 ∧ (n + 719468) % 146097 < 146097 := by omega
  have hyear := yearOfEra_bounds hdoe.1 hdoe.2
  have hmonth := monthOfYear_bounds hyear.2.2.1 hyear.2.2.2
  unfold dateOf dateFrom
  dsimp only
  split
  · omega
  · omega

theorem day_dateOf (n : ℤ) : 1 ≤ (dateOf n).day ∧ (dateOf n).day ≤ 31 := by
  have hday :=
    dayOfMonth_bounds ((n + 719468) % 146097 - daysBeforeYear (yearOfEra ((n + 719468) % 146097)))
  unfold dateOf dateFrom
  dsimp only
  omega

/-- The years of a hundred million days before and after the first one. -/
theorem year_dateOf {n : ℤ} (h : -100000000 ≤ n) (h' : n ≤ 100000000) :
    -1000000 < (dateOf n).year ∧ (dateOf n).year < 1000000 := by
  have hdoe : 0 ≤ (n + 719468) % 146097 ∧ (n + 719468) % 146097 < 146097 := by omega
  have hyear := yearOfEra_bounds hdoe.1 hdoe.2
  unfold dateOf dateFrom
  dsimp only
  split
  · omega
  · omega

theorem dayNumber_dateFrom {era yoe mp : ℤ} (hyoe : 0 ≤ yoe ∧ yoe < 400)
    (hmp : 0 ≤ mp ∧ mp < 12) (day : ℤ) :
    dayNumber (dateFrom era yoe mp day) =
      era * 146097 + daysBeforeYear yoe + daysBeforeMonth mp + (day - 1) - 719468 := by
  have hera : (yoe + era * 400) / 400 = era := by omega
  have hwithin : (yoe + era * 400) % 400 = yoe := by omega
  unfold dayNumber dateFrom
  by_cases hspring : mp < 10
  · have hmonth : ¬mp + 3 ≤ 2 := by omega
    have hback : mp + 3 - 3 = mp := by omega
    simp only [if_pos hspring, if_neg hmonth, hera, hwithin, hback]
  · have hmonth : mp - 9 ≤ 2 := by omega
    have hback : mp - 9 + 9 = mp := by omega
    have hyear : yoe + era * 400 + 1 - 1 = yoe + era * 400 := by omega
    simp only [if_neg hspring, if_pos hmonth, hyear, hera, hwithin, hback]

/-- The number of the date of a day is the day. -/
theorem dayNumber_dateOf (n : ℤ) : dayNumber (dateOf n) = n := by
  have hdoe : 0 ≤ (n + 719468) % 146097 ∧ (n + 719468) % 146097 < 146097 := by omega
  have hyear := yearOfEra_bounds hdoe.1 hdoe.2
  have hmonth := monthOfYear_bounds hyear.2.2.1 hyear.2.2.2
  unfold dateOf
  dsimp only
  rw [dayNumber_dateFrom ⟨hyear.1, hyear.2.1⟩ hmonth]
  omega

example : dateOf 11016 = ⟨2000, 2, 29⟩ := by decide

end Calendar

end Foundation
