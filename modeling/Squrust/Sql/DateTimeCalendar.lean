import Squrust.Foundation.Calendars
import Squrust.Sql.DateTimeFields

/-!
# The calendar of the date and time functions

What the functions compute with doubles is what the calendar computes with integers: the
quotients stay away from the next integer by more than what rounding may do. A Julian day
that is read as a date is read as a day of the calendar (`isDate_of_msToDate`), and in
range as the date of its count (`msToDate_inRange`). The Julian day of a date is its count
(`daysToMs_eq`).
-/

set_option autoImplicit false

namespace Squrust.Sql

open Squrust.Foundation Squrust.Foundation.Float64

/-! ## Doubles as integers -/

/-- A double that is an integer. -/
theorem asI64_of_int {x : Float64} {v : Int} (value : HasValue x v) (fits : Fits v) :
    asI64 x = v := by
  obtain ⟨low, high⟩ := asI64_between ⟨v, value, le_rfl, le_rfl⟩ fits.1 fits.2
  omega

/-- A double between an integer and the next one. -/
theorem asI64_of_between {x : Float64} {low high : ℚ} {v : Int} (between : Between x low high)
    (below : (v : ℚ) ≤ low) (above : high < (v : ℚ) + 1) (nonneg : 0 ≤ v) (fits : v < 2 ^ 62) :
    asI64 x = v := by
  obtain ⟨a, value, lower, upper⟩ := between
  have least : Int64.minValue.toInt = -2 ^ 63 := by decide
  have greatest : Int64.maxValue.toInt = 2 ^ 63 - 1 := by decide
  have nonneg_ : (0 : ℚ) ≤ v := by exact_mod_cast nonneg
  have cut : truncated a = v := by
    have floor : ⌊a⌋₊ = v.toNat := by
      rw [Nat.floor_eq_iff (by linarith), ← Int.cast_natCast, Int.toNat_of_nonneg nonneg]
      exact ⟨by linarith, by linarith⟩
    rw [truncated, if_neg (by linarith), floor, Int.toNat_of_nonneg nonneg]
  rw [asI64, value.toInt64, cut, Int64.toInt_ofIntClamp (by omega) (by omega)]

/-- A double that is not negative, below an integer. -/
theorem asI64_of_lt {x : Float64} {low high : ℚ} {v : Int} (between : Between x low high)
    (nonneg : 0 ≤ low) (below : high < (v : ℚ) + 1) (fits : v < 2 ^ 62) : asI64 x ≤ v := by
  obtain ⟨a, value, lower, upper⟩ := between
  have least : Int64.minValue.toInt = -2 ^ 63 := by decide
  have greatest : Int64.maxValue.toInt = 2 ^ 63 - 1 := by decide
  have floor : (⌊a⌋₊ : Int) < v + 1 := by
    have part := Nat.floor_le (nonneg.trans lower)
    exact_mod_cast (part.trans upper).trans_lt below
  rw [asI64, value.toInt64, truncated, if_neg (not_lt.mpr (nonneg.trans lower)),
    Int64.toInt_ofIntClamp (by omega) (by omega)]
  omega

namespace DateTime

/-- The century is computed without an error. -/
theorem alpha_eq {z : Int} (first : 0 ≤ 4 * z + 128179) (last : z ≤ 2 ^ 38) :
    asI64 ((Float64.ofInt z + 32044.75) / 36524.25) = centuryOf z := by
  have sum : HasValue (Float64.ofInt z + 32044.75) ((z : ℚ) + 128179 / 4) := by
    refine (HasValue.ofInt_exact (by omega)).add_exact value_32044_75 ?_
    have bound := @Bound.dyadic (4 * z + 128179) 2 (by omega) (by decide)
    push_cast at bound
    have same : (z : ℚ) + 128179 / 4 = (4 * z + 128179) / 2 ^ 2 := by ring
    rwa [same]
  have quotient : Between ((Float64.ofInt z + 32044.75) / 36524.25) (centuryOf z)
      (((centuryOf z + 1) * 2 ^ 18 - 1 : Int) / 2 ^ 18) := by
    have below : (146097 * centuryOf z : ℚ) ≤ 4 * z + 128179 := by
      have whole : 146097 * centuryOf z ≤ 4 * z + 128179 := by unfold centuryOf; omega
      exact_mod_cast whole
    have above : (4 * z + 128179 + 1 : ℚ) ≤ 146097 * (centuryOf z + 1) := by
      have whole : 4 * z + 128179 + 1 ≤ 146097 * (centuryOf z + 1) := by unfold centuryOf; omega
      exact_mod_cast whole
    have few : (centuryOf z).natAbs ≤ 2 ^ 30 := by unfold centuryOf; omega
    refine Between.div ⟨_, sum, le_rfl, le_rfl⟩ value_36524_25 (by norm_num) (.ofInt (by omega))
      (.dyadic (by omega) (by decide)) (by linarith) ?_
    push_cast
    linarith
  refine asI64_of_between quotient le_rfl ?_ (by unfold centuryOf; omega) (by unfold centuryOf; omega)
  push_cast
  linarith

theorem between_122_1_sharp : Between 122.1 (7814 / 64) (7815 / 64) := by
  have low := @Bound.dyadic 7814 6 (by decide) (by decide)
  have high := @Bound.dyadic 7815 6 (by decide) (by decide)
  norm_num at low high
  refine literal_between (by decide) (by decide) (by decide) ?_ ?_ (by norm_num) (by norm_num)
  · norm_num
    exact low
  · norm_num
    exact high

/-- The year is computed without an error. -/
theorem yearC_eq {b : Int} (first : 123 ≤ b) (last : b ≤ 2 ^ 39) : yearC b = yearFromMarch b := by
  have number := between_ofInt first last (by decide) (by decide)
  have rest : Between (Float64.ofInt b - 122.1) ((64 * b - 7815 : Int) / 2 ^ 6)
      ((64 * b - 7814 : Int) / 2 ^ 6) := by
    refine Between.sub ⟨_, HasValue.ofInt_exact (by omega), le_rfl, le_rfl⟩ between_122_1_sharp
      (.dyadic (by omega) (by decide)) (.dyadic (by omega) (by decide)) ?_ ?_
    · push_cast
      linarith
    · push_cast
      linarith
  have below : (7305 * yearFromMarch b + 3 : ℚ) ≤ 20 * b - 2442 := by
    have whole : 7305 * yearFromMarch b + 3 ≤ 20 * b - 2442 := by unfold yearFromMarch; omega
    exact_mod_cast whole
  have above : (20 * b - 2442 + 2 : ℚ) ≤ 7305 * (yearFromMarch b + 1) := by
    have whole : 20 * b - 2442 + 2 ≤ 7305 * (yearFromMarch b + 1) := by
      unfold yearFromMarch; omega
    exact_mod_cast whole
  have few : (yearFromMarch b).natAbs ≤ 2 ^ 33 := by unfold yearFromMarch; omega
  have quotient : Between ((Float64.ofInt b - 122.1) / 365.25) (yearFromMarch b)
      (((yearFromMarch b + 1) * 2 ^ 12 - 1 : Int) / 2 ^ 12) := by
    refine rest.div value_365_25 (by norm_num) (.ofInt (by omega))
      (.dyadic (by omega) (by decide)) ?_ ?_
    · push_cast
      linarith
    · push_cast
      linarith
  refine asI64_of_between quotient le_rfl ?_ (by unfold yearFromMarch; omega)
    (by unfold yearFromMarch; omega)
  push_cast
  linarith

theorem between_30_6001_sharp : Between 30.6001 (513384487 / 16777216) (513384488 / 16777216) := by
  have low := @Bound.dyadic 513384487 24 (by decide) (by decide)
  have high := @Bound.dyadic 513384488 24 (by decide) (by decide)
  norm_num at low high
  refine literal_between (by decide) (by decide) (by decide) ?_ ?_ (by norm_num) (by norm_num)
  · norm_num
    exact low
  · norm_num
    exact high

/-- The month is computed without an error. -/
theorem monthE_eq {rest : Int} (first : 123 ≤ rest) (last : rest ≤ 488) :
    monthE rest = monthFromMarch rest := by
  obtain ⟨least, greatest⟩ := monthFromMarch_bounds first last
  have below : (306001 * monthFromMarch rest + 1 : ℚ) ≤ 10000 * rest := by
    have whole : 306001 * monthFromMarch rest + 1 ≤ 10000 * rest := by unfold monthFromMarch; omega
    exact_mod_cast whole
  have above : (10000 * rest + 1 : ℚ) ≤ 306001 * (monthFromMarch rest + 1) := by
    have whole : 10000 * rest + 1 ≤ 306001 * (monthFromMarch rest + 1) := by
      unfold monthFromMarch; omega
    exact_mod_cast whole
  have least_ : (4 : ℚ) ≤ monthFromMarch rest := by exact_mod_cast least
  have greatest_ : (monthFromMarch rest : ℚ) ≤ 15 := by exact_mod_cast greatest
  have quotient : Between (Float64.ofInt rest / 30.6001) (monthFromMarch rest)
      (((monthFromMarch rest + 1) * 2 ^ 20 - 1 : Int) / 2 ^ 20) := by
    refine Between.div_between ⟨_, HasValue.ofInt_exact (by omega), le_rfl, le_rfl⟩
      between_30_6001_sharp (by norm_num) (by linarith) (.ofInt (by omega))
      (.dyadic (by omega) (by decide)) ?_ ?_ ?_
    · linarith
    · push_cast
      linarith
    · push_cast
      linarith
  refine asI64_of_between quotient le_rfl ?_ (by omega) (by omega)
  push_cast
  linarith

/-- The days in front of a month are computed without an error. -/
theorem daysX1_eq {e : Int} (first : 4 ≤ e) (last : e ≤ 15) : daysX1 e = 306001 * e / 10000 := by
  obtain ⟨days, named⟩ : ∃ days, days = 306001 * e / 10000 := ⟨_, rfl⟩
  have below : (10000 * days + 1 : ℚ) ≤ 306001 * e := by
    have whole : 10000 * days + 1 ≤ 306001 * e := by omega
    exact_mod_cast whole
  have above : (306001 * e + 1 : ℚ) ≤ 10000 * (days + 1) := by
    have whole : 306001 * e + 1 ≤ 10000 * (days + 1) := by omega
    exact_mod_cast whole
  have first_ : (4 : ℚ) ≤ e := by exact_mod_cast first
  have last_ : (e : ℚ) ≤ 15 := by exact_mod_cast last
  have product : Between (30.6001 * Float64.ofInt e) days
      (((days + 1) * 2 ^ 14 - 1 : Int) / 2 ^ 14) := by
    refine between_30_6001_sharp.mul (HasValue.ofInt_exact (by omega)) (by linarith)
      (.ofInt (by omega)) (.dyadic (by omega) (by decide)) ?_ ?_
    · linarith
    · push_cast
      linarith
  rw [← named]
  refine asI64_of_between product le_rfl ?_ (by omega) (by omega)
  push_cast
  linarith

/-! ## From a date to the Julian day -/

/-- Half a day in front of a count of days, in milliseconds. -/
theorem midnight_eq {days : Int} (few : days.natAbs ≤ 2 ^ 24) :
    asI64 ((Float64.ofInt days - 1524.5) * 86400000.0) = (days - 1524) * 86400000 - 43200000 := by
  have half : HasValue (Float64.ofInt days - 1524.5) ((2 * days - 3049 : Int) / 2 ^ 1) := by
    have same : ((2 * days - 3049 : Int) / 2 ^ 1 : ℚ) = days - 3049 / 2 := by
      push_cast
      ring
    have bound := @Bound.dyadic (2 * days - 3049) 1 (by omega) (by decide)
    rw [same] at bound ⊢
    exact (HasValue.ofInt_exact (by omega)).sub_exact value_1524_5 bound
  have millis : HasValue ((Float64.ofInt days - 1524.5) * 86400000.0)
      ((days - 1524) * 86400000 - 43200000 : Int) := by
    have same : ((2 * days - 3049 : Int) / 2 ^ 1 : ℚ) * 86400000 =
        ((days - 1524) * 86400000 - 43200000 : Int) := by
      push_cast
      ring
    have bound := @Bound.ofInt ((days - 1524) * 86400000 - 43200000) (by omega)
    rw [← same] at bound ⊢
    exact half.mul_exact value_86400000 bound
  exact asI64_of_int millis ⟨by omega, by omega⟩

/-- **The Julian day of a date** is its count. -/
theorem daysToMs_eq {y m d : Int} (years : -4713 ≤ y ∧ y ≤ 9999) (months : 1 ≤ m ∧ m ≤ 12)
    (days : 1 ≤ d ∧ d ≤ 31) : daysToMs y m d = .ok (dayNumber y m d * 86400000 - 43200000) := by
  have counted : dayNumber y m d =
      marchDay (if m ≤ 2 then y - 1 else y) (if m ≤ 2 then m + 12 else m) d := by
    unfold dayNumber
    split
    · rfl
    · rfl
  rw [counted]
  unfold daysToMs
  generalize named : (if m ≤ 2 then y - 1 else y) = y'
  generalize named' : (if m ≤ 2 then m + 12 else m) = m'
  have years' : -4714 ≤ y' ∧ y' ≤ 9999 := by
    split at named <;> omega
  have months' : 3 ≤ m' ∧ m' ≤ 14 := by
    split at named' <;> omega
  have century : (y' + 4800).tdiv 100 = (y' + 4800) / 100 := Int.tdiv_eq_ediv_of_nonneg (by omega)
  have quarter : ((y' + 4800) / 100).tdiv 4 = (y' + 4800) / 100 / 4 :=
    Int.tdiv_eq_ediv_of_nonneg (by omega)
  have inYears : (36525 * (y' + 4716)).tdiv 100 = 36525 * (y' + 4716) / 100 :=
    Int.tdiv_eq_ediv_of_nonneg (by omega)
  have inMonths : (306001 * (m' + 1)).tdiv 10000 = 306001 * (m' + 1) / 10000 :=
    Int.tdiv_eq_ediv_of_nonneg (by omega)
  simp (disch := omega) only [i64_of_bounds, Outcome.ok_bind, century, quarter, inYears, inMonths]
  rw [midnight_eq (by omega), marchDay]
  rfl

/-- The time of day, with seconds that are an integer. -/
theorem timeToMs_eq {h min sec : Int} {s : Float64} (hours : 0 ≤ h ∧ h ≤ 99)
    (minutes : 0 ≤ min ∧ min ≤ 99) (seconds : 0 ≤ sec ∧ sec ≤ 99) (value : HasValue s sec) :
    timeToMs h min s = .ok (h * 3600000 + min * 60000 + sec * 1000) := by
  have seconds_ : (0 : ℚ) ≤ sec ∧ (sec : ℚ) ≤ 99 := by exact_mod_cast seconds
  have millis : HasValue (s * 1000.0) (sec * 1000 : Int) := by
    have bound := @Bound.ofInt (sec * 1000) (by omega)
    push_cast at bound ⊢
    exact value.mul_exact value_1000 bound
  have rounded : Between (s * 1000.0 + 0.5) (sec * 1000 : Int) ((2 * (sec * 1000) + 1 : Int) / 2 ^ 1) := by
    refine Between.add ⟨_, millis, le_rfl, le_rfl⟩ ⟨_, value_half, le_rfl, le_rfl⟩
      (.ofInt (by omega)) (.dyadic (by omega) (by decide)) ?_ ?_
    · linarith
    · push_cast
      linarith
  have cut : asI64 (s * 1000.0 + 0.5) = sec * 1000 := by
    refine asI64_of_between rounded le_rfl ?_ (by omega) (by omega)
    push_cast
    linarith
  unfold timeToMs
  rw [cut]
  simp (disch := omega) only [i64_of_bounds, Outcome.ok_bind]

/-! ## From the Julian day to a date -/

/-- The day that a Julian day in milliseconds is in. -/
def dayIn (ijd : Int) : Int := (ijd + 43200000).tdiv 86400000

/-- The days with those that are left out, as far as the calendar goes. -/
theorem countB_eq {z b : Int} (run : countB z = .ok b) (low : -2 ^ 38 ≤ z) (high : z ≤ 2 ^ 38) :
    (0 ≤ 4 * z + 128179 → b = filledDay z) ∧ (4 * z + 128179 < 0 → b ≤ 122) := by
  unfold countB at run
  have least := (alpha_bounds low high).1
  have exact_ : 0 ≤ 4 * z + 128179 →
      asI64 ((Float64.ofInt z + 32044.75) / 36524.25) = centuryOf z := fun first =>
    alpha_eq first high
  have early : 4 * z + 128179 < 0 → asI64 ((Float64.ofInt z + 32044.75) / 36524.25) ≤ 0 := by
    intro before
    have number := @between_ofInt z (-2 ^ 38) (-32045) low (by omega) (by decide) (by decide)
    have sum : Between (Float64.ofInt z + 32044.75) (-2 ^ 39 : Int) (0 : Int) :=
      number.add ⟨_, value_32044_75, le_rfl, le_rfl⟩ (.ofInt (by decide)) (.ofInt (by decide))
        (by norm_num) (by norm_num)
    have quotient : Between ((Float64.ofInt z + 32044.75) / 36524.25) (-2 ^ 24 : Int) (0 : Int) :=
      sum.div value_36524_25 (by norm_num) (.ofInt (by decide)) (.ofInt (by decide))
        (by norm_num) (by norm_num)
    exact (asI64_between quotient (by decide) (by decide)).2
  generalize asI64 ((Float64.ofInt z + 32044.75) / 36524.25) = alpha at *
  simp only [Outcome.bind_eq_ok, i64_eq_ok] at run
  obtain ⟨_, ⟨-, rfl⟩, _, ⟨-, rfl⟩, _, ⟨-, rfl⟩, _, ⟨-, rfl⟩, _, ⟨-, rfl⟩, _, ⟨-, rfl⟩, -, rfl⟩ := run
  refine ⟨fun first => ?_, fun before => ?_⟩
  · obtain rfl := exact_ first
    have nonneg : 0 ≤ centuryOf z := by
      unfold centuryOf
      omega
    rw [Int.tdiv_eq_ediv_of_nonneg (by omega), filledDay]
    omega
  · have most := early before
    have quarter : alpha - 52 ≤ (alpha - 52 + 100).tdiv 4 := by
      rcases Int.le_total 0 (alpha - 52 + 100) with forward | backward
      · have nonneg := Int.tdiv_nonneg forward (by decide : (0 : Int) ≤ 4)
        omega
      · obtain ⟨n, named⟩ : ∃ n, alpha - 52 + 100 = -n := ⟨_, (neg_neg _).symm⟩
        rw [named, Int.neg_tdiv, Int.tdiv_eq_ediv_of_nonneg (by omega)]
        omega
    omega

/-- No year that counts is in front of the days that the calendar counts. -/
theorem yearC_early {b : Int} (low : -2 ^ 39 ≤ b) (early : b ≤ 122) : yearC b ≤ 0 :=
  (@yearC_between b _ _ (-2 ^ 33) 0 low early (by decide) (by decide) (by decide) (by decide)
    (by decide) (by decide)).2

/-- The day of the year, if the year is one of the first 32768. -/
theorem dayOfYear_eq {b : Int} (first : 123 ≤ b) (last : b ≤ 2 ^ 39) (year : yearC b ≤ 32767) :
    b - (36525 * (yearC b % 32768)).tdiv 100 = dayOfYear b := by
  rw [yearC_eq first last] at year ⊢
  have nonneg : 0 ≤ yearFromMarch b := by
    unfold yearFromMarch
    omega
  rw [Int.emod_eq_of_lt nonneg (by omega), Int.tdiv_eq_ediv_of_nonneg (by omega)]
  rfl

/-- A Julian day that is read as a date of the years that count is read as the date of its
count, and so is one in range. -/
theorem msToDate_eq {ijd y m d : Int} (fits : Fits ijd) (run : msToDate ijd = .ok (y, m, d))
    (near : -4713 ≤ y ∧ y ≤ 9999 ∨ 0 ≤ ijd ∧ ijd ≤ maxIjd) :
    y = yearOf (filledDay (dayIn ijd)) ∧ m = monthOf (filledDay (dayIn ijd)) ∧
      d = dayOf (filledDay (dayIn ijd)) := by
  unfold msToDate at run
  simp only [Outcome.bind_eq_ok, Outcome.pure_eq_ok, i64_eq_ok, Prod.mk.injEq] at run
  obtain ⟨_, ⟨room, rfl⟩, b, counted, _, ⟨-, rfl⟩, _, ⟨-, rfl⟩, _, ⟨-, rfl⟩, _, ⟨-, rfl⟩, _, ⟨-, rfl⟩,
    rfl, rfl, rfl⟩ := run
  obtain ⟨low, high⟩ := fits
  obtain ⟨least, greatest⟩ : -2 ^ 38 ≤ dayIn ijd ∧ dayIn ijd ≤ 2 ^ 38 :=
    tdiv_bounds (by decide) (by omega) (by omega) (by decide) (by decide)
  change countB (dayIn ijd) = .ok b at counted
  obtain ⟨b', counted', lower, upper⟩ := countB_ok least greatest
  obtain rfl : b' = b := Except.ok.inj (counted'.symm.trans counted)
  obtain ⟨late, early⟩ := countB_eq counted least greatest
  -- The days in front of the calendar's are of years that do not count.
  have inCalendar : 123 ≤ b' ∧ b' = filledDay (dayIn ijd) ∧ yearC b' ≤ 32767 := by
    rcases near with ⟨first, last⟩ | ⟨first, last⟩
    · have years : 2 ≤ yearC b' ∧ yearC b' ≤ 14715 := by
        split at first <;> split at last <;> omega
      have begun : 123 ≤ b' := by
        by_contra before
        have none := yearC_early lower (by omega)
        omega
      exact ⟨begun, late (by omega), by omega⟩
    · have days : 0 ≤ dayIn ijd ∧ dayIn ijd ≤ 5373485 := by
        rw [dayIn, Int.tdiv_eq_ediv_of_nonneg (by omega)]
        unfold maxIjd at last
        omega
      have filled := late (by omega)
      have bounds : 123 ≤ b' ∧ b' ≤ 5400000 := by
        rw [filled]
        unfold filledDay centuryOf
        omega
      refine ⟨bounds.1, filled, ?_⟩
      rw [yearC_eq bounds.1 upper]
      unfold yearFromMarch
      omega
  obtain ⟨begun, filled, year⟩ := inCalendar
  obtain ⟨first, last, _⟩ := dayOfYear_bounds b'
  obtain ⟨first', last'⟩ := monthFromMarch_bounds first last
  rw [dayOfYear_eq begun upper year, monthE_eq first last, daysX1_eq first' last',
    yearC_eq begun upper, ← filled]
  exact ⟨rfl, rfl, rfl⟩

/-- **A Julian day read as a date** of the years that count is read as a day of the calendar. -/
theorem isDate_of_msToDate {ijd y m d : Int} (fits : Fits ijd) (run : msToDate ijd = .ok (y, m, d))
    (near : -4713 ≤ y ∧ y ≤ 9999 ∨ 0 ≤ ijd ∧ ijd ≤ maxIjd) : IsDate y m d := by
  obtain ⟨rfl, rfl, rfl⟩ := msToDate_eq fits run near
  exact isDate_of_filledDay _

/-! ## Computing from the Julian day -/

/-- The date is read from the Julian day if there is none yet. -/
theorem computeYmd_fresh {p q : DateTime} (valid : p.validJd = true) (undated : p.validYmd = false)
    (run : p.computeYmd = .ok q) :
    ∃ y m d, msToDate p.ijd = .ok (y, m, d) ∧ q = { p with y, m, d, validYmd := true } := by
  unfold computeYmd at run
  rw [if_neg (by rw [undated]; decide), if_neg (by rw [valid]; decide)] at run
  obtain ⟨⟨y, m, d⟩, read, made⟩ := Outcome.bind_eq_ok.mp run
  exact ⟨y, m, d, read, (Outcome.pure_eq_ok.mp made).symm⟩

/-- The milliseconds of the day. -/
def msOfDay (ijd : Int) : Int := (ijd + 43200000) % 86400000

/-- The time of day is read from the Julian day if there is none yet. -/
theorem computeHms_fresh {p q : DateTime} (valid : p.validJd = true) (untimed : p.validHms = false)
    (run : p.computeHms = .ok q) :
    q = { p with
      s := Float64.ofInt (msOfDay p.ijd % 60000) / 1000.0
      min := msOfDay p.ijd / 60000 % 60
      h := msOfDay p.ijd / 60000 / 60
      rawS := none
      validHms := true } := by
  unfold computeHms computeJd at run
  rw [if_neg (by rw [untimed]; decide), if_pos valid, Outcome.ok_bind] at run
  obtain ⟨_, sum, made⟩ := Outcome.bind_eq_ok.mp run
  obtain ⟨-, rfl⟩ := i64_eq_ok.mp sum
  exact (Outcome.pure_eq_ok.mp made).symm

end DateTime

end Squrust.Sql
