import Mathlib.Tactic.Common
import Squrust.Foundation.Calendars
import Squrust.Sql.Dml

/-!
# The current date and time

`now_utc` computes a date and a time of day from seconds since 1970. Days are counted in
eras of 400 years, the year of an era is guessed from the days that leap years add
(`yearOfEra_parts`), and months begin in March, so that their lengths are five times in a row
those of 153 days. What it computes is a date of the calendar and a time of day that count to
the seconds, and no other does (`nowUtc_civil`).
-/

set_option autoImplicit false

namespace Squrust.Sql

open Squrust.Foundation

/-! ## Civil times -/

/-- A date and a time of day. -/
structure CivilTime where
  year : Int
  month : Int
  day : Int
  hour : Int
  minute : Int
  second : Int
deriving DecidableEq

namespace CivilTime

/-- A day of the calendar and a time of a day. -/
structure IsReal (t : CivilTime) : Prop where
  date : IsDate t.year t.month t.day
  hours : 0 ≤ t.hour ∧ t.hour ≤ 23
  minutes : 0 ≤ t.minute ∧ t.minute ≤ 59
  seconds : 0 ≤ t.second ∧ t.second ≤ 59

/-- The seconds since the beginning of 1970. -/
def toSeconds (t : CivilTime) : Int :=
  (dayNumber t.year t.month t.day - dayNumber 1970 1 1) * 86400 + t.hour * 3600 + t.minute * 60 +
    t.second

example : toSeconds ⟨2024, 2, 29, 12, 34, 56⟩ = 1709210096 := by decide

/-- The format of a `CURRENT_` default, with the numbers in place. -/
def written (t : CivilTime) (fmt : Text) : Text :=
  let put (pattern new text : Text) := replaceAll pattern new text.length text
  put "%S".toList (padded 2 t.second) <| put "%M".toList (padded 2 t.minute) <|
    put "%H".toList (padded 2 t.hour) <| put "%d".toList (padded 2 t.day) <|
    put "%m".toList (padded 2 t.month) <| put "%Y".toList (padded 4 t.year) fmt

/-- Different civil times are different seconds. -/
theorem toSeconds_inj {t t' : CivilTime} (real : t.IsReal) (real' : t'.IsReal)
    (same : t.toSeconds = t'.toSeconds) : t = t' := by
  obtain ⟨y, m, d, h, min, s⟩ := t
  obtain ⟨y', m', d', h', min', s'⟩ := t'
  obtain ⟨date, hours, minutes, seconds⟩ := real
  obtain ⟨date', hours', minutes', seconds'⟩ := real'
  unfold toSeconds at same
  dsimp only at *
  have days : dayNumber y m d = dayNumber y' m' d' := by omega
  obtain ⟨rfl, rfl, rfl⟩ := dayNumber_inj date date' days
  rw [CivilTime.mk.injEq]
  omega

end CivilTime

/-! ## Eras -/

/-- The parts of a day of an era of 400 years: its century, four years of that, its year, and
the day of the year. The last day is there in every fourth year, and at the end of a century
in the last one. -/
structure EraDay (century fourth year day : Int) : Prop where
  centuries : 0 ≤ century ∧ century ≤ 3
  fourths : 0 ≤ fourth ∧ fourth ≤ 24
  years : 0 ≤ year ∧ year ≤ 3
  days : 0 ≤ day ∧ day ≤ 365
  last : day = 365 → year = 3 ∧ (fourth = 24 → century = 3)

/-- The year of an era is found from the day with the days that leap years add. -/
theorem yearOfEra_parts {doe yoe : Int} (low : 0 ≤ doe) (high : doe ≤ 146096)
    (named : yoe = (doe - doe / 1460 + doe / 36524 - doe / 146096) / 365) :
    ∃ century fourth year day, EraDay century fourth year day ∧
      yoe = 100 * century + 4 * fourth + year ∧
      doe = 36524 * century + 1461 * fourth + 365 * year + day := by
  by_cases last : doe = 146096
  · subst last
    exact ⟨3, 24, 3, 365, ⟨by decide, by decide, by decide, by decide, by decide⟩, named, rfl⟩
  · obtain ⟨century, centuries⟩ : ∃ century, century = doe / 36524 := ⟨_, rfl⟩
    obtain ⟨fourth, fourths⟩ : ∃ fourth, fourth = doe % 36524 / 1461 := ⟨_, rfl⟩
    obtain ⟨rest, rests⟩ : ∃ rest, rest = doe % 36524 % 1461 := ⟨_, rfl⟩
    have few : (0 ≤ century ∧ century ≤ 3) ∧ (0 ≤ fourth ∧ fourth ≤ 24) ∧ 0 ≤ rest ∧ rest ≤ 1460 := by
      omega
    have parts : doe = 36524 * century + 1461 * fourth + rest := by omega
    have short : fourth = 24 → rest ≤ 1459 := by omega
    -- The quotient by 1460 counts the leap days, the next one up to 96 days early.
    obtain ⟨early, earlies, fourthLast, leaps⟩ : ∃ early, (early = 0 ∨ early = 1 ∧ 1364 ≤ rest) ∧
        (rest = 1460 → early = 1) ∧ doe / 1460 = 25 * century + fourth + early := by
      by_cases before : 24 * century + fourth + rest < 1460
      · exact ⟨0, .inl rfl, by omega, by omega⟩
      · exact ⟨1, .inr ⟨rfl, by omega⟩, by omega, by omega⟩
    have none : doe / 146096 = 0 := by omega
    rw [leaps, none, ← centuries] at named
    have year : yoe = 100 * century + 4 * fourth + (rest - early) / 365 := by omega
    refine ⟨century, fourth, (rest - early) / 365, rest - 365 * ((rest - early) / 365),
      ⟨few.1, few.2.1, by omega, by omega, ?_⟩, year, by omega⟩
    intro whole
    have end_ : rest = 1460 := by omega
    exact ⟨by omega, fun hundred => by omega⟩

/-- The days of the years in front of a year of an era. -/
theorem EraDay.day_eq {century fourth year day : Int} (parts : EraDay century fourth year day) :
    365 * (100 * century + 4 * fourth + year) + (100 * century + 4 * fourth + year).tdiv 4 -
        (100 * century + 4 * fourth + year).tdiv 100 =
      36524 * century + 1461 * fourth + 365 * year := by
  obtain ⟨centuries, fourths, years, _, _⟩ := parts
  have nonneg : 0 ≤ 100 * century + 4 * fourth + year := by omega
  have leaps : (100 * century + 4 * fourth + year) / 4 = 25 * century + fourth := by omega
  have hundreds : (100 * century + 4 * fourth + year) / 100 = century := by omega
  rw [Int.tdiv_eq_ediv_of_nonneg nonneg, Int.tdiv_eq_ediv_of_nonneg nonneg, leaps, hundreds]
  ring

/-- The era of a day is the quotient by its days, before and after zero. -/
theorem era_floor (z : Int) : (if 0 ≤ z then z else z - 146096).tdiv 146097 = z / 146097 := by
  split
  · rename_i forward
    exact Int.tdiv_eq_ediv_of_nonneg forward
  · obtain ⟨n, back⟩ : ∃ n, z - 146096 = -n := ⟨-(z - 146096), by omega⟩
    rw [back, Int.neg_tdiv, Int.tdiv_eq_ediv_of_nonneg (by omega)]
    omega

/-! ## Months that begin in March -/

/-- The months of a day of the year, counted from March on, and the date they are. -/
structure MarchMonth (y doy mp year month day : Int) : Prop where
  counted : mp = (5 * doy + 2) / 153
  year_eq : year = y + if month ≤ 2 then 1 else 0
  month_eq : month = if mp < 10 then mp + 3 else mp - 9
  day_eq : day = doy - (153 * mp + 2) / 5 + 1

namespace MarchMonth

variable {y doy mp year month day : Int}

theorem month_bounds (march : MarchMonth y doy mp year month day) (days : 0 ≤ doy ∧ doy ≤ 365) :
    (0 ≤ mp ∧ mp ≤ 11) ∧ 1 ≤ month ∧ month ≤ 12 := by
  obtain ⟨counted, _, month_eq, _⟩ := march
  have months : 0 ≤ mp ∧ mp ≤ 11 := by omega
  refine ⟨months, ?_⟩
  split at month_eq <;> omega

/-- The days of the months from March to January. -/
theorem day_le_early (march : MarchMonth y doy mp year month day) (first : 0 ≤ mp) (early : mp ≤ 10) :
    day ≤ daysInMonth year month := by
  obtain ⟨counted, _, month_eq, day_eq⟩ := march
  unfold daysInMonth
  rw [if_neg (by split at month_eq <;> omega)]
  interval_cases mp
  all_goals
    norm_num at month_eq
    rw [month_eq]
    norm_num
    omega

/-- The parts of a day are a day of the calendar. -/
theorem isDate {century fourth k era : Int} (parts : EraDay century fourth k doy)
    (march : MarchMonth (100 * century + 4 * fourth + k + era * 400) doy mp year month day) :
    IsDate year month day := by
  obtain ⟨months, range⟩ := march.month_bounds parts.days
  by_cases early : mp ≤ 10
  · refine ⟨range, ?_, march.day_le_early months.1 early⟩
    obtain ⟨counted, _, _, day_eq⟩ := march
    omega
  · -- Only the last day of the year is a 29th of February.
    obtain ⟨counted, year_eq, month_eq, day_eq⟩ := march
    obtain ⟨centuries, fourths, years, days, last⟩ := parts
    have february : month = 2 := by rw [if_neg (by omega)] at month_eq; omega
    rw [february, if_pos (by decide)] at year_eq
    refine ⟨range, by omega, ?_⟩
    rw [february, daysInMonth, if_pos rfl]
    by_cases leap : IsLeap year
    · rw [if_pos leap]
      omega
    · have short : doy ≠ 365 := fun whole => leap ⟨by omega, fun hundred => by omega⟩
      rw [if_neg leap]
      omega

/-- The parts of a day count to it. -/
theorem dayNumber_eq {century fourth k era : Int} (parts : EraDay century fourth k doy)
    (march : MarchMonth (100 * century + 4 * fourth + k + era * 400) doy mp year month day) :
    dayNumber year month day =
      146097 * era + (36524 * century + 1461 * fourth + 365 * k + doy) + 1721120 := by
  obtain ⟨⟨first, last⟩, _⟩ := march.month_bounds parts.days
  obtain ⟨_, year_eq, month_eq, day_eq⟩ := march
  obtain ⟨centuries, fourths, years, _, _⟩ := parts
  have counted : dayNumber year month day =
      marchDay (100 * century + 4 * fourth + k + era * 400) (mp + 3) day := by
    by_cases early : mp < 10
    · rw [if_pos early] at month_eq
      rw [if_neg (by omega), add_zero] at year_eq
      rw [dayNumber, if_neg (by omega), year_eq, month_eq]
    · rw [if_neg early] at month_eq
      rw [if_pos (by omega)] at year_eq
      rw [dayNumber, if_pos (by omega)]
      congr 1 <;> omega
  have length : 306001 * (mp + 3 + 1) / 10000 = 122 + (153 * mp + 2) / 5 := by
    clear month_eq day_eq counted
    interval_cases mp <;> rfl
  have quarter : 36525 * (100 * century + 4 * fourth + k + era * 400 + 4716) / 100 =
      146100 * era + 36525 * century + 1461 * fourth + 365 * k + 1722519 := by omega
  have hundred : (100 * century + 4 * fourth + k + era * 400 + 4800) / 100 = 4 * era + century + 48 := by
    omega
  rw [counted, marchDay, length, day_eq, quarter, hundred]
  omega

end MarchMonth

/-! ## The current time -/

/-- The numbers that are computed from days since 1970, in turn. -/
structure CivilDate (days z era doe yoe doy mp year month day : Int) : Prop where
  z_eq : z = days + 719468
  era_eq : era = (if 0 ≤ z then z else z - 146096).tdiv 146097
  doe_eq : doe = z - era * 146097
  yoe_eq : yoe = (doe - doe.tdiv 1460 + doe.tdiv 36524 - doe.tdiv 146096).tdiv 365
  doy_eq : doy = doe - (365 * yoe + yoe.tdiv 4 - yoe.tdiv 100)
  mp_eq : mp = (5 * doy + 2).tdiv 153
  year_eq : year = yoe + era * 400 + if month ≤ 2 then 1 else 0
  month_eq : month = if mp < 10 then mp + 3 else mp - 9
  day_eq : day = doy - (153 * mp + 2).tdiv 5 + 1

/-- They are the ones that are written. -/
theorem nowUtc_eq {secs z era doe yoe doy mp year month day : Int}
    (date : CivilDate (secs.ediv 86400) z era doe yoe doy mp year month day) (fmt : Text) :
    nowUtc secs fmt = CivilTime.written ⟨year, month, day, (secs.emod 86400).tdiv 3600,
      ((secs.emod 86400).tmod 3600).tdiv 60, (secs.emod 86400).tmod 60⟩ fmt := by
  obtain ⟨rfl, rfl, rfl, rfl, rfl, rfl, rfl, rfl, rfl⟩ := date
  rfl

/-- **The date that is computed** is a day of the calendar that counts to the days. -/
theorem CivilDate.isDate {days z era doe yoe doy mp year month day : Int}
    (date : CivilDate days z era doe yoe doy mp year month day) :
    IsDate year month day ∧ dayNumber year month day - dayNumber 1970 1 1 = days := by
  obtain ⟨z_eq, era_eq', doe_eq, yoe_eq, doy_eq, mp_eq, year_eq, month_eq, day_eq⟩ := date
  rw [era_floor] at era_eq'
  have bounds : 0 ≤ doe ∧ doe ≤ 146096 := by omega
  simp (disch := omega) only [Int.tdiv_eq_ediv_of_nonneg] at yoe_eq
  obtain ⟨century, fourth, k, day', parts, rfl, split⟩ := yearOfEra_parts bounds.1 bounds.2 yoe_eq
  rw [parts.day_eq, split, add_sub_cancel_left] at doy_eq
  subst doy_eq
  have positive := parts.days.1
  rw [Int.tdiv_eq_ediv_of_nonneg (by omega)] at mp_eq
  have months : 0 ≤ mp := by omega
  rw [Int.tdiv_eq_ediv_of_nonneg (by omega)] at day_eq
  have march : MarchMonth (100 * century + 4 * fourth + k + era * 400) doy mp year month day :=
    ⟨mp_eq, year_eq, month_eq, day_eq⟩
  have epoch : dayNumber 1970 1 1 = 2440588 := by decide
  refine ⟨march.isDate parts, ?_⟩
  rw [march.dayNumber_eq parts, epoch, ← split]
  omega

/-- The time of day that is computed from seconds. -/
theorem time_of_seconds {tod : Int} (low : 0 ≤ tod) (high : tod < 86400) :
    (0 ≤ tod.tdiv 3600 ∧ tod.tdiv 3600 ≤ 23) ∧
      (0 ≤ (tod.tmod 3600).tdiv 60 ∧ (tod.tmod 3600).tdiv 60 ≤ 59) ∧
      (0 ≤ tod.tmod 60 ∧ tod.tmod 60 ≤ 59) ∧
      tod.tdiv 3600 * 3600 + (tod.tmod 3600).tdiv 60 * 60 + tod.tmod 60 = tod := by
  rw [Int.tdiv_eq_ediv_of_nonneg low, Int.tmod_eq_emod_of_nonneg low, Int.tmod_eq_emod_of_nonneg low,
    Int.tdiv_eq_ediv_of_nonneg (by omega)]
  omega

/-- **The current date and time** are the only ones of the calendar and of a day that count to
the seconds, for any seconds since 1970 and before. -/
theorem nowUtc_civil (secs : Int) :
    ∃ t : CivilTime, (∀ fmt, nowUtc secs fmt = t.written fmt) ∧ t.IsReal ∧ t.toSeconds = secs ∧
      ∀ other : CivilTime, other.IsReal → other.toSeconds = secs → other = t := by
  obtain ⟨z, era, doe, yoe, doy, mp, year, month, day, date⟩ : ∃ z era doe yoe doy mp year month day,
      CivilDate (secs.ediv 86400) z era doe yoe doy mp year month day :=
    ⟨_, _, _, _, _, _, _, _, _, rfl, rfl, rfl, rfl, rfl, rfl, rfl, rfl, rfl⟩
  obtain ⟨real, days⟩ := date.isDate
  obtain ⟨hours, minutes, seconds, sum⟩ := @time_of_seconds (secs.emod 86400)
    (Int.emod_nonneg _ (by decide)) (Int.emod_lt_of_pos _ (by decide))
  have counted : CivilTime.toSeconds ⟨year, month, day, (secs.emod 86400).tdiv 3600,
      ((secs.emod 86400).tmod 3600).tdiv 60, (secs.emod 86400).tmod 60⟩ = secs := by
    rw [CivilTime.toSeconds, days, add_assoc, add_assoc, ← add_assoc (_ * 3600), sum]
    exact Int.ediv_mul_add_emod secs 86400
  exact ⟨_, nowUtc_eq date, ⟨real, hours, minutes, seconds⟩, counted, fun other real' counted' =>
    CivilTime.toSeconds_inj real' ⟨real, hours, minutes, seconds⟩ (counted'.trans counted.symm)⟩

end Squrust.Sql
