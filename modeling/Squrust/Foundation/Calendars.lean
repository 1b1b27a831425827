import Mathlib.Tactic.Common
import Mathlib.Tactic.IntervalCases
import Mathlib.Order.Basic

/-!
# The Gregorian calendar and days counted through

A date of the calendar has a month and a day of that month (`IsDate`). Days are counted
through: `dayNumber` is the count of a date, and `yearOf`, `monthOf` and `dayOf` give the date of
a count. The count is the one in use for Julian days, before and after zero.

The way from the count to the date fills in the days that are left out at the ends of
centuries (`filledDay`), so that every fourth year is a leap year, and then counts in
years of 365.25 and months of 30.6001 days. It gives a date of the calendar
(`isDate_of_filledDay`), and counting that date gives the same day (`dayNumber_of_filledDay`).
-/

set_option autoImplicit false

namespace Squrust.Foundation

/-! ## Dates -/

/-- A year with a 29th of February. -/
def IsLeap (y : Int) : Prop := y % 4 = 0 ∧ (y % 100 = 0 → y % 400 = 0)

instance (y : Int) : Decidable (IsLeap y) := inferInstanceAs (Decidable (_ ∧ _))

def daysInMonth (y m : Int) : Int :=
  if m = 2 then if IsLeap y then 29 else 28
  else if m = 4 ∨ m = 6 ∨ m = 9 ∨ m = 11 then 30
  else 31

/-- A day of the calendar. -/
structure IsDate (y m d : Int) : Prop where
  month : 1 ≤ m ∧ m ≤ 12
  day : 1 ≤ d ∧ d ≤ daysInMonth y m

instance (y m d : Int) : Decidable (IsDate y m d) :=
  decidable_of_iff ((1 ≤ m ∧ m ≤ 12) ∧ 1 ≤ d ∧ d ≤ daysInMonth y m)
    ⟨fun date => ⟨date.1, date.2⟩, fun date => ⟨date.month, date.day⟩⟩

theorem daysInMonth_bounds (y m : Int) : 28 ≤ daysInMonth y m ∧ daysInMonth y m ≤ 31 := by
  unfold daysInMonth
  split
  · split <;> decide
  · split <;> decide

/-- The first day of a month is a day. -/
theorem isDate_first {y m : Int} (month : 1 ≤ m ∧ m ≤ 12) : IsDate y m 1 :=
  ⟨month, by decide, by have := daysInMonth_bounds y m; omega⟩

/-- Up to the 28th, every day of a month is a day. -/
theorem isDate_early {y m d : Int} (month : 1 ≤ m ∧ m ≤ 12) (first : 1 ≤ d) (early : d ≤ 28) :
    IsDate y m d :=
  ⟨month, first, by have := daysInMonth_bounds y m; omega⟩

theorem IsDate.day_le {y m d : Int} (date : IsDate y m d) : d ≤ 31 :=
  le_trans date.day.2 (daysInMonth_bounds y m).2

/-! ## Counting -/

/-- The count of a day, when the year begins in March. -/
def marchDay (y m d : Int) : Int :=
  36525 * (y + 4716) / 100 + 306001 * (m + 1) / 10000 + d + (38 - (y + 4800) / 100 +
    (y + 4800) / 100 / 4) - 1524

/-- The count of a day. -/
def dayNumber (y m d : Int) : Int :=
  if m ≤ 2 then marchDay (y - 1) (m + 12) d else marchDay y m d

/-- The century of a day, counted from the year -4800. -/
def centuryOf (z : Int) : Int := (4 * z + 128179) / 146097

/-- The count of a day, with the days that the ends of centuries leave out. -/
def filledDay (z : Int) : Int := z + 1550 + (centuryOf z - 52) - (centuryOf z + 48) / 4

/-- The year that begins in March, counted from the year -4716. -/
def yearFromMarch (b : Int) : Int := (20 * b - 2442) / 7305

/-- The day of that year. -/
def dayOfYear (b : Int) : Int := b - 36525 * yearFromMarch b / 100

/-- The month of a day of the year. -/
def monthFromMarch (rest : Int) : Int := 10000 * rest / 306001

def monthOf (b : Int) : Int :=
  let e := monthFromMarch (dayOfYear b)
  if e < 14 then e - 1 else e - 13

def yearOf (b : Int) : Int :=
  if 2 < monthOf b then yearFromMarch b - 4716 else yearFromMarch b - 4715

def dayOf (b : Int) : Int := dayOfYear b - 306001 * monthFromMarch (dayOfYear b) / 10000

/-! ## From a count to a date and back -/

/-- The days of a year. There is one more at the end of every fourth year. -/
theorem dayOfYear_bounds (b : Int) :
    123 ≤ dayOfYear b ∧ dayOfYear b ≤ 488 ∧ (dayOfYear b = 488 → yearFromMarch b % 4 = 3) := by
  unfold dayOfYear yearFromMarch
  omega

theorem monthFromMarch_bounds {rest : Int} (low : 123 ≤ rest) (high : rest ≤ 488) :
    4 ≤ monthFromMarch rest ∧ monthFromMarch rest ≤ 15 := by
  unfold monthFromMarch
  omega

theorem quarterDays_century (z : Int) :
    146100 * centuryOf z + centuryOf z % 4 ≤ 4 * filledDay z + 122235 ∧
      4 * filledDay z + 122235 < 146100 * centuryOf z + centuryOf z % 4 + 146097 := by
  have quarter : (centuryOf z + 48) / 4 = centuryOf z / 4 + 12 := by omega
  have least : 146097 * centuryOf z ≤ 4 * z + 128179 := by
    unfold centuryOf
    omega
  have most : 4 * z + 128179 < 146097 * (centuryOf z + 1) := by
    unfold centuryOf
    omega
  unfold filledDay
  omega

theorem quarterDays_year (b : Int) :
    1461 * (yearFromMarch b + 84) ≤ 4 * b + 122235 ∧
      4 * b + 122235 ≤ 1461 * (yearFromMarch b + 84) + 1460 := by
  unfold yearFromMarch
  omega

/-- The century of a day is the one its year is in. -/
theorem centuryOf_eq (z : Int) : centuryOf z = (yearFromMarch (filledDay z) + 84) / 100 := by
  have century := quarterDays_century z
  have year := quarterDays_year (filledDay z)
  omega

/-- The day at the end of every fourth year that begins in March is a 29th of February, of
which the calendar leaves out three at the ends of four centuries. -/
theorem isLeap_of_last {z : Int} (last : dayOfYear (filledDay z) = 488) :
    IsLeap (yearFromMarch (filledDay z) - 4715) := by
  have fourth := (dayOfYear_bounds (filledDay z)).2.2 last
  refine ⟨by omega, fun hundred => ?_⟩
  have quarters := quarterDays_century z
  have century := centuryOf_eq z
  unfold dayOfYear at last
  have year : yearFromMarch (filledDay z) = 100 * centuryOf z + 15 := by omega
  omega

theorem dayOf_pos {b : Int} : 1 ≤ dayOf b := by
  obtain ⟨low, high, _⟩ := dayOfYear_bounds b
  unfold dayOf monthFromMarch
  omega

/-- The days of the months from March to January. -/
theorem dayOf_le_early {b y : Int} (early : monthFromMarch (dayOfYear b) ≤ 14) :
    dayOf b ≤ daysInMonth y (monthOf b) := by
  obtain ⟨low, high, _⟩ := dayOfYear_bounds b
  obtain ⟨first, _⟩ := monthFromMarch_bounds low high
  unfold dayOf monthOf
  have within : monthFromMarch (dayOfYear b) = 10000 * dayOfYear b / 306001 := rfl
  generalize monthFromMarch (dayOfYear b) = e at *
  unfold daysInMonth
  interval_cases e
  all_goals
    norm_num
    omega

/-- **The date of a count** is a day of the calendar. -/
theorem isDate_of_filledDay (z : Int) :
    IsDate (yearOf (filledDay z)) (monthOf (filledDay z)) (dayOf (filledDay z)) := by
  obtain ⟨low, high, _⟩ := dayOfYear_bounds (filledDay z)
  obtain ⟨first, last⟩ := monthFromMarch_bounds low high
  refine ⟨?_, dayOf_pos, ?_⟩
  · unfold monthOf
    dsimp only
    split <;> omega
  · by_cases early : monthFromMarch (dayOfYear (filledDay z)) ≤ 14
    · exact dayOf_le_early early
    · -- Only the last day of the year is a 29th of February.
      have february : monthFromMarch (dayOfYear (filledDay z)) = 15 := by omega
      have month : monthOf (filledDay z) = 2 := by rw [monthOf, february]; rfl
      have year : yearOf (filledDay z) = yearFromMarch (filledDay z) - 4715 := by
        rw [yearOf, month, if_neg (by decide)]
      rw [month, year, daysInMonth, if_pos rfl, dayOf, february]
      split
      · omega
      · rename_i common
        have short : dayOfYear (filledDay z) ≠ 488 := fun end_ => common (isLeap_of_last end_)
        omega

/-- The year and the month are counted from March on. -/
theorem dayNumber_eq_marchDay (b : Int) :
    dayNumber (yearOf b) (monthOf b) (dayOf b) =
      marchDay (yearFromMarch b - 4716) (monthFromMarch (dayOfYear b) - 1) (dayOf b) := by
  obtain ⟨low, high, _⟩ := dayOfYear_bounds b
  obtain ⟨first, last⟩ := monthFromMarch_bounds low high
  by_cases within : monthFromMarch (dayOfYear b) < 14
  · have month : monthOf b = monthFromMarch (dayOfYear b) - 1 := by rw [monthOf, if_pos within]
    have year : yearOf b = yearFromMarch b - 4716 := by rw [yearOf, if_pos (by omega)]
    rw [dayNumber, if_neg (by omega), month, year]
  · have month : monthOf b = monthFromMarch (dayOfYear b) - 13 := by rw [monthOf, if_neg within]
    have year : yearOf b = yearFromMarch b - 4715 := by rw [yearOf, if_neg (by omega)]
    rw [dayNumber, if_pos (by omega), month, year]
    congr 1 <;> omega

/-- **Counting the date of a count** gives the count. -/
theorem dayNumber_of_filledDay (z : Int) :
    dayNumber (yearOf (filledDay z)) (monthOf (filledDay z)) (dayOf (filledDay z)) = z := by
  have century := centuryOf_eq z
  have filled : filledDay z = z + 1550 + (centuryOf z - 52) - (centuryOf z + 48) / 4 := rfl
  rw [dayNumber_eq_marchDay, marchDay, dayOf, dayOfYear]
  simp only [sub_add_cancel]
  omega

/-! ## Days follow each other -/

/-- The days of a month are counted in turn. -/
theorem dayNumber_day (y m d : Int) : dayNumber y m d = dayNumber y m 1 + (d - 1) := by
  unfold dayNumber marchDay
  split <;> omega

/-- The first of March comes behind a 29th of February, or the 28th. -/
theorem dayNumber_march (y : Int) : dayNumber y 3 1 = dayNumber y 2 1 + daysInMonth y 2 := by
  unfold dayNumber marchDay
  rw [if_neg (by decide), if_pos (by decide), daysInMonth, if_pos rfl]
  by_cases leap : IsLeap y
  · rw [if_pos leap]
    obtain ⟨fourth, hundred⟩ := leap
    omega
  · rw [if_neg leap]
    unfold IsLeap at leap
    by_cases hundred : y % 100 = 0
    · have century : (y - 1 + 4800) / 100 = (y + 4800) / 100 - 1 := by omega
      have fourth : (y + 4800) / 100 % 4 ≠ 0 := by omega
      omega
    · have century : (y - 1 + 4800) / 100 = (y + 4800) / 100 := by omega
      have days : 36525 * (y - 1 + 4716) / 100 = 36525 * (y + 4716) / 100 - 365 := by
        have common : y % 4 = 1 ∨ y % 4 = 2 ∨ y % 4 = 3 := by omega
        omega
      rw [century, days]
      omega

/-- The next month begins behind the last day of a month. -/
theorem dayNumber_month {y m : Int} (first : 1 ≤ m) (last : m ≤ 11) :
    dayNumber y (m + 1) 1 = dayNumber y m 1 + daysInMonth y m := by
  by_cases february : m = 2
  · subst february
    exact dayNumber_march y
  · unfold dayNumber marchDay
    rw [daysInMonth, if_neg february]
    by_cases january : m = 1
    · subst january
      rw [if_pos (by decide), if_pos (by decide), if_neg (by decide)]
      omega
    · have months : 306001 * (m + 1 + 1) / 10000 = 306001 * (m + 1) / 10000 +
          if m = 4 ∨ m = 6 ∨ m = 9 ∨ m = 11 then 30 else 31 := by
        interval_cases m <;> simp at february january ⊢
      rw [if_neg (by omega), if_neg (by omega), months]
      omega

/-- The next year begins behind the last of December. -/
theorem dayNumber_january (y : Int) : dayNumber (y + 1) 1 1 = dayNumber y 12 1 + 31 := by
  unfold dayNumber marchDay
  norm_num
  omega

/-- The first day of a month, when months are counted through. -/
def monthStart (k : Int) : Int := dayNumber (k / 12) (k % 12 + 1) 1

/-- Months follow each other. -/
theorem monthStart_succ (k : Int) :
    monthStart (k + 1) = monthStart k + daysInMonth (k / 12) (k % 12 + 1) := by
  by_cases december : k % 12 = 11
  · have year : (k + 1) / 12 = k / 12 + 1 := by omega
    have month : (k + 1) % 12 = 0 := by omega
    have long : daysInMonth (k / 12) (11 + 1) = 31 := rfl
    rw [monthStart, monthStart, year, month, december, long]
    exact dayNumber_january (k / 12)
  · have year : (k + 1) / 12 = k / 12 := by omega
    have month : (k + 1) % 12 = k % 12 + 1 := by omega
    rw [monthStart, monthStart, year, month]
    exact dayNumber_month (by omega) (by omega)

theorem monthStart_lt {k k' : Int} (before : k < k') : monthStart k < monthStart k' := by
  refine strictMono_int_of_lt_succ (fun k => ?_) before
  have long := (daysInMonth_bounds (k / 12) (k % 12 + 1)).1
  rw [monthStart_succ]
  omega

theorem monthStart_le {k k' : Int} (before : k ≤ k') : monthStart k ≤ monthStart k' := by
  rcases Int.lt_or_eq_of_le before with less | rfl
  · exact (monthStart_lt less).le
  · exact le_rfl

/-- A day of the calendar lies in its month. -/
theorem IsDate.dayNumber_eq {y m d : Int} (date : IsDate y m d) :
    dayNumber y m d = monthStart (12 * y + (m - 1)) + (d - 1) ∧
      dayNumber y m d < monthStart (12 * y + (m - 1) + 1) := by
  obtain ⟨month, first, last⟩ := date
  have year : (12 * y + (m - 1)) / 12 = y := by omega
  have month : (12 * y + (m - 1)) % 12 + 1 = m := by omega
  have start : monthStart (12 * y + (m - 1)) = dayNumber y m 1 := by rw [monthStart, year, month]
  rw [monthStart_succ, year, month, start, dayNumber_day y m d]
  exact ⟨rfl, by omega⟩

/-- **Different days of the calendar** have different counts. -/
theorem dayNumber_inj {y m d y' m' d' : Int} (date : IsDate y m d) (date' : IsDate y' m' d')
    (same : dayNumber y m d = dayNumber y' m' d') : y = y' ∧ m = m' ∧ d = d' := by
  obtain ⟨here, before⟩ := date.dayNumber_eq
  obtain ⟨here', before'⟩ := date'.dayNumber_eq
  have first := date.day.1
  have first' := date'.day.1
  have months : 12 * y + (m - 1) = 12 * y' + (m' - 1) := by
    rcases lt_trichotomy (12 * y + (m - 1)) (12 * y' + (m' - 1)) with early | same | late
    · have := monthStart_le (Int.add_one_le_iff.mpr early)
      omega
    · exact same
    · have := monthStart_le (Int.add_one_le_iff.mpr late)
      omega
  have month := date.month
  have month' := date'.month
  rw [here, here', months] at same
  omega

end Squrust.Foundation
