import Mathlib
import Squrust.Foundation.DoubleBounds
import Squrust.Sql.DateTime

/-!
# What a date and time is computed from

The Julian day, the date and the time of day of a `DateTime` are computed from each
other. The numbers that come from texts are small, and those that come from any Julian
day are not too large (`Dated`), so that nothing overflows but the sums with the Julian
day itself: it is read 43,200,000 milliseconds, half a day, later when a date or a time
of day is computed from it (`computeYmdHms_iff`).
-/

set_option autoImplicit false

namespace Squrust.Sql

open Squrust.Foundation Squrust.Foundation.Float64

/-! ## Numbers in range -/

/-- In the range of an `i64`. -/
def Fits (n : Int) : Prop := -2 ^ 63 ≤ n ∧ n < 2 ^ 63

theorem i64_eq_ok {n v : Int} : i64 n = .ok v ↔ Fits n ∧ n = v := by
  unfold i64
  split
  · rename_i fits
    rw [Except.ok.injEq]
    exact (and_iff_right fits).symm
  · rename_i outside
    constructor
    · exact nofun
    · exact fun both => absurd both.1 outside

theorem i64_of_fits {n : Int} (fits : Fits n) : i64 n = .ok n := i64_eq_ok.mpr ⟨fits, rfl⟩

/-- Sums and products that are small enough do not overflow. -/
theorem i64_of_bounds {n : Int} (low : -2 ^ 62 ≤ n) (high : n ≤ 2 ^ 62) : i64 n = .ok n :=
  i64_of_fits ⟨by omega, by omega⟩

/-- Division towards zero, between bounds. -/
theorem tdiv_bounds {a k low high : Int} (positive : 0 < k) (below : low * k ≤ a)
    (above : a ≤ high * k) (negative : low ≤ 0) (nonneg : 0 ≤ high) :
    low ≤ a.tdiv k ∧ a.tdiv k ≤ high := by
  rcases le_total 0 a with forward | backward
  · rw [Int.tdiv_eq_ediv_of_nonneg forward]
    exact ⟨negative.trans (Int.ediv_nonneg forward positive.le), Int.ediv_le_of_le_mul positive above⟩
  · obtain ⟨n, rfl⟩ : ∃ n, a = -n := ⟨-a, (neg_neg a).symm⟩
    have forward : 0 ≤ n := by omega
    rw [Int.neg_tdiv, Int.tdiv_eq_ediv_of_nonneg forward]
    have quotient : n / k ≤ -low := Int.ediv_le_of_le_mul positive (by rw [neg_mul]; omega)
    have sign := Int.ediv_nonneg forward positive.le
    exact ⟨by omega, by omega⟩

/-- A double as an integer, between bounds. -/
theorem asI64_between {x : Float64} {low high : Int} (between : Between x low high)
    (fits : -2 ^ 63 ≤ low) (fits' : high < 2 ^ 63) : low ≤ asI64 x ∧ asI64 x ≤ high := by
  obtain ⟨a, value, below, above⟩ := between
  have lower := le_truncated below
  have upper := truncated_le above
  have least : Int64.minValue.toInt = -2 ^ 63 := by decide
  have greatest : Int64.maxValue.toInt = 2 ^ 63 - 1 := by decide
  rw [asI64, value.toInt64, Int64.toInt_ofIntClamp (by omega) (by omega)]
  exact ⟨lower, upper⟩

/-! ## The numbers of the calendar -/

section Literals

theorem value_86400000 : HasValue 86400000.0 86400000 :=
  literal_exact (by decide) (by decide) (by decide) (@Bound.ofInt 86400000 (by decide)) (by norm_num)

theorem value_1524_5 : HasValue 1524.5 (3049 / 2) :=
  literal_exact (by decide) (by decide) (by decide)
    ⟨⟨3049, -1, by decide, by decide, by norm_num⟩, by norm_num⟩ (by norm_num)

theorem value_32044_75 : HasValue 32044.75 (128179 / 4) :=
  literal_exact (by decide) (by decide) (by decide)
    ⟨⟨128179, -2, by decide, by decide, by norm_num⟩, by norm_num⟩ (by norm_num)

theorem value_36524_25 : HasValue 36524.25 (146097 / 4) :=
  literal_exact (by decide) (by decide) (by decide)
    ⟨⟨146097, -2, by decide, by decide, by norm_num⟩, by norm_num⟩ (by norm_num)

theorem value_365_25 : HasValue 365.25 (1461 / 4) :=
  literal_exact (by decide) (by decide) (by decide)
    ⟨⟨1461, -2, by decide, by decide, by norm_num⟩, by norm_num⟩ (by norm_num)

theorem between_122_1 : Between 122.1 122 123 :=
  literal_between (by decide) (by decide) (by decide) (@Bound.ofInt 122 (by decide))
    (@Bound.ofInt 123 (by decide)) (by norm_num) (by norm_num)

theorem between_30_6001 : Between 30.6001 30 31 :=
  literal_between (by decide) (by decide) (by decide) (@Bound.ofInt 30 (by decide))
    (@Bound.ofInt 31 (by decide)) (by norm_num) (by norm_num)

end Literals

/-- An integer of at most 53 digits as a double. -/
theorem between_ofInt {v low high : Int} (below : low ≤ v) (above : v ≤ high)
    (few : low.natAbs ≤ 2 ^ 53) (few' : high.natAbs ≤ 2 ^ 53) : Between (ofInt v) low high :=
  Between.ofInt (.ofInt few) (.ofInt few') (by exact_mod_cast below) (by exact_mod_cast above)

namespace DateTime

theorem alpha_bounds {z : Int} (low : -2 ^ 38 ≤ z) (high : z ≤ 2 ^ 38) :
    -2 ^ 24 ≤ asI64 ((Float64.ofInt z + 32044.75) / 36524.25) ∧
      asI64 ((Float64.ofInt z + 32044.75) / 36524.25) ≤ 2 ^ 24 := by
  have number := between_ofInt low high (by decide) (by decide)
  have sum : Between (Float64.ofInt z + 32044.75) (-2 ^ 39 : Int) (2 ^ 39 : Int) :=
    number.add ⟨_, value_32044_75, le_rfl, le_rfl⟩ (.ofInt (by decide)) (.ofInt (by decide))
      (by norm_num) (by norm_num)
  have quotient : Between ((Float64.ofInt z + 32044.75) / 36524.25) (-2 ^ 24 : Int) (2 ^ 24 : Int) :=
    sum.div value_36524_25 (by norm_num) (.ofInt (by decide)) (.ofInt (by decide))
      (by norm_num) (by norm_num)
  exact asI64_between quotient (by decide) (by decide)

theorem countB_ok {z : Int} (low : -2 ^ 38 ≤ z) (high : z ≤ 2 ^ 38) :
    ∃ b, countB z = .ok b ∧ -2 ^ 39 ≤ b ∧ b ≤ 2 ^ 39 := by
  obtain ⟨lower, upper⟩ := alpha_bounds low high
  unfold countB
  generalize asI64 ((Float64.ofInt z + 32044.75) / 36524.25) = alpha at lower upper
  obtain ⟨least, greatest⟩ : -2 ^ 24 ≤ (alpha - 52 + 100).tdiv 4 ∧ (alpha - 52 + 100).tdiv 4 ≤ 2 ^ 24 :=
    tdiv_bounds (by decide) (by omega) (by omega) (by decide) (by decide)
  generalize quarter : (alpha - 52 + 100).tdiv 4 = count at least greatest
  refine ⟨z + 1 + (alpha - 52) - count + 25 + 1524, ?_, by omega, by omega⟩
  simp (disch := omega) only [i64_of_bounds, Outcome.ok_bind, quarter]

theorem yearC_between {b low high least greatest : Int} (below : low ≤ b) (above : b ≤ high)
    (fewLow : low.natAbs ≤ 2 ^ 39) (fewHigh : high.natAbs ≤ 2 ^ 39)
    (fewLeast : least.natAbs ≤ 2 ^ 39) (fewGreatest : greatest.natAbs ≤ 2 ^ 39)
    (lower : least * 1461 ≤ (low - 123) * 4) (upper : (high - 122) * 4 ≤ greatest * 1461) :
    least ≤ yearC b ∧ yearC b ≤ greatest := by
  have number := between_ofInt below above (by omega) (by omega)
  have rest : Between (Float64.ofInt b - 122.1) (low - 123 : Int) (high - 122 : Int) :=
    number.sub between_122_1 (.ofInt (by omega)) (.ofInt (by omega)) (by push_cast; linarith)
      (by push_cast; linarith)
  have lower_ : (least : ℚ) * 1461 ≤ (low - 123) * 4 := by exact_mod_cast lower
  have upper_ : ((high : ℚ) - 122) * 4 ≤ greatest * 1461 := by exact_mod_cast upper
  have quotient : Between ((Float64.ofInt b - 122.1) / 365.25) least greatest :=
    rest.div value_365_25 (by norm_num) (.ofInt (by omega)) (.ofInt (by omega))
      (by push_cast; linarith) (by push_cast; linarith)
  exact asI64_between quotient (by omega) (by omega)

/-- The years of days from some day on do not come back. -/
theorem yearC_bounds {b : Int} (low : -2 ^ 39 ≤ b) (high : b ≤ 2 ^ 39) :
    (-2 ^ 33 ≤ yearC b ∧ yearC b ≤ 2 ^ 33) ∧ (12000000 ≤ b → 32768 ≤ yearC b) ∧
      (b ≤ -12000000 → yearC b ≤ -32768) := by
  refine ⟨yearC_between low high (by decide) (by decide) (by decide) (by decide) (by decide)
    (by decide), fun late => ?_, fun early => ?_⟩
  · exact (@yearC_between b _ _ 32768 (2 ^ 33) late high (by decide) (by decide) (by decide)
      (by decide) (by decide) (by decide)).1
  · exact (@yearC_between b _ _ (-2 ^ 33) (-32768) low early (by decide) (by decide) (by decide)
      (by decide) (by decide) (by decide)).2

theorem monthE_between {rest low high least greatest : Int} (below : low ≤ rest) (above : rest ≤ high)
    (fewLow : low.natAbs ≤ 2 ^ 41) (fewHigh : high.natAbs ≤ 2 ^ 41)
    (fewLeast : least.natAbs ≤ 2 ^ 41) (fewGreatest : greatest.natAbs ≤ 2 ^ 41)
    (negative : least ≤ 0) (nonneg : 0 ≤ greatest) (lower : least * 30 ≤ low)
    (upper : high ≤ greatest * 30) : least ≤ monthE rest ∧ monthE rest ≤ greatest := by
  obtain ⟨month, value, thirty, _⟩ := between_30_6001
  have number := between_ofInt below above (by omega) (by omega)
  have lower_ : (least : ℚ) * 30 ≤ low := by exact_mod_cast lower
  have upper_ : (high : ℚ) ≤ greatest * 30 := by exact_mod_cast upper
  have negative_ : (least : ℚ) ≤ 0 := by exact_mod_cast negative
  have nonneg_ : (0 : ℚ) ≤ greatest := by exact_mod_cast nonneg
  have quotient : Between (Float64.ofInt rest / 30.6001) least greatest :=
    number.div value (by linarith) (.ofInt (by omega)) (.ofInt (by omega))
      (by nlinarith) (by nlinarith)
  exact asI64_between quotient (by omega) (by omega)

theorem daysX1_between {e bound : Int} (below : -bound ≤ e) (above : e ≤ bound) (nonneg : 0 ≤ bound)
    (few : bound ≤ 2 ^ 40) : -(bound * 31) ≤ daysX1 e ∧ daysX1 e ≤ bound * 31 := by
  obtain ⟨month, value, thirty, most⟩ := between_30_6001
  have number := between_ofInt below above (by omega) (by omega)
  have nonneg_ : (0 : ℚ) ≤ bound := by exact_mod_cast nonneg
  have product : Between (30.6001 * Float64.ofInt e) (-(bound * 31) : Int) (bound * 31 : Int) :=
    Between.mul_comm' value number (by linarith) (.ofInt (by omega)) (.ofInt (by omega))
      (by push_cast; nlinarith) (by push_cast; nlinarith)
  exact asI64_between product (by omega) (by omega)

/-! ## Dates -/

/-- A date as it is kept: one of years that modifiers may lead to, whose month and day are small,
or one too far away for that. -/
structure Dated (y m d : Int) : Prop where
  years : -2 ^ 34 ≤ y ∧ y ≤ 2 ^ 34
  months : -2 ^ 38 ≤ m ∧ m ≤ 2 ^ 38
  days : -2 ^ 44 ≤ d ∧ d ≤ 2 ^ 44
  near : (-2 ^ 22 ≤ m ∧ m ≤ 2 ^ 22) ∧ (-2 ^ 27 ≤ d ∧ d ≤ 2 ^ 27) ∨ 28000 ≤ y ∧ -2 ≤ m ∨
    y ≤ -37000 ∧ m ≤ 12

/-- **The date of any Julian day** is computed, if the day can be read. -/
theorem msToDate_ok {ijd : Int} (fits : Fits ijd) (room : Fits (ijd + 43200000)) :
    ∃ y m d, msToDate ijd = .ok (y, m, d) ∧ Dated y m d := by
  obtain ⟨low, high⟩ := fits
  obtain ⟨least, greatest⟩ : -2 ^ 38 ≤ (ijd + 43200000).tdiv 86400000 ∧
      (ijd + 43200000).tdiv 86400000 ≤ 2 ^ 38 :=
    tdiv_bounds (by decide) (by omega) (by omega) (by decide) (by decide)
  obtain ⟨b, counted, lower, upper⟩ := countB_ok least greatest
  obtain ⟨⟨lowC, highC⟩, late, early⟩ := yearC_bounds lower upper
  obtain ⟨lowD, highD⟩ : 0 ≤ (36525 * (yearC b % 32768)).tdiv 100 ∧
      (36525 * (yearC b % 32768)).tdiv 100 ≤ 11968147 :=
    tdiv_bounds (by decide) (by omega) (by omega) (by decide) (by decide)
  unfold msToDate
  simp only [i64_of_fits room, Outcome.ok_bind, counted]
  have shift : i64 (36525 * (yearC b % 32768)) = .ok (36525 * (yearC b % 32768)) :=
    i64_of_bounds (by omega) (by omega)
  simp only [shift, Outcome.ok_bind]
  generalize yearC b = c at *
  generalize (36525 * (c % 32768)).tdiv 100 = dd at *
  obtain ⟨lowE, highE⟩ : -2 ^ 36 ≤ monthE (b - dd) ∧ monthE (b - dd) ≤ 2 ^ 36 :=
    @monthE_between _ (-2 ^ 40) (2 ^ 40) _ _ (by omega) (by omega) (by decide) (by decide)
      (by decide) (by decide) (by decide) (by decide) (by decide) (by decide)
  obtain ⟨lowX, highX⟩ := daysX1_between lowE highE (by decide) (by decide)
  have forward : 12000000 ≤ b → 0 ≤ monthE (b - dd) := fun later =>
    (@monthE_between _ 0 (2 ^ 40) _ (2 ^ 36) (by omega) (by omega) (by decide) (by decide)
      (by decide) (by decide) (by decide) (by decide) (by decide) (by decide)).1
  have backward : b ≤ -12000000 → monthE (b - dd) ≤ 0 := fun earlier =>
    (@monthE_between _ (-2 ^ 40) 0 (-2 ^ 36) _ (by omega) (by omega) (by decide) (by decide)
      (by decide) (by decide) (by decide) (by decide) (by decide) (by decide)).2
  have near : -12000000 < b → b < 12000000 → (-2 ^ 20 ≤ monthE (b - dd) ∧ monthE (b - dd) ≤ 2 ^ 20) ∧
      -(2 ^ 20 * 31) ≤ daysX1 (monthE (b - dd)) ∧ daysX1 (monthE (b - dd)) ≤ 2 ^ 20 * 31 := by
    intro above below
    have months := @monthE_between (b - dd) (-2 ^ 24 * 30 / 16) (2 ^ 24 * 30 / 16) (-2 ^ 20) (2 ^ 20)
      (by omega) (by omega) (by decide) (by decide) (by decide) (by decide) (by decide) (by decide)
      (by decide) (by decide)
    exact ⟨months, daysX1_between months.1 months.2 (by decide) (by decide)⟩
  have rest : i64 (b - dd) = .ok (b - dd) := i64_of_bounds (by omega) (by omega)
  simp only [rest, Outcome.ok_bind]
  generalize daysX1 (monthE (b - dd)) = x1 at *
  generalize monthE (b - dd) = e at *
  have day : i64 (b - dd - x1) = .ok (b - dd - x1) := i64_of_bounds (by omega) (by omega)
  simp only [day, Outcome.ok_bind]
  generalize named : (if e < 14 then e - 1 else e - 13) = m
  have months : e - 13 ≤ m ∧ m ≤ e - 1 := by
    split at named <;> omega
  have month : i64 m = .ok m := i64_of_bounds (by omega) (by omega)
  simp only [month, Outcome.ok_bind]
  generalize named' : (if 2 < m then c - 4716 else c - 4715) = y
  have years : c - 4716 ≤ y ∧ y ≤ c - 4715 := by
    split at named' <;> omega
  have year : i64 y = .ok y := i64_of_bounds (by omega) (by omega)
  simp only [year, Outcome.ok_bind]
  refine ⟨y, m, b - dd - x1, rfl, ⟨by omega, by omega⟩, ⟨by omega, by omega⟩,
    ⟨by omega, by omega⟩, ?_⟩
  rcases lt_or_ge b 12000000 with below | later
  · rcases lt_or_ge (-12000000) b with above | earlier
    · obtain ⟨months', days'⟩ := near above below
      exact .inl ⟨⟨by omega, by omega⟩, by omega, by omega⟩
    · have first := early earlier
      have first' := backward earlier
      exact .inr (.inr ⟨by omega, by omega⟩)
  · have last := late later
    have last' := forward later
    split at named
    · exact .inr (.inl ⟨by omega, by omega⟩)
    · exact .inr (.inl ⟨by omega, by omega⟩)

/-- The Julian day of a date that modifiers may lead to. -/
theorem daysToMs_ok {y m d : Int} (years : -4713 ≤ y ∧ y ≤ 9999) (months : -2 ^ 22 ≤ m ∧ m ≤ 2 ^ 22)
    (days : -2 ^ 27 ≤ d ∧ d ≤ 2 ^ 27) :
    ∃ ijd, daysToMs y m d = .ok ijd ∧ -2 ^ 57 ≤ ijd ∧ ijd ≤ 2 ^ 57 := by
  unfold daysToMs
  generalize named : (if m ≤ 2 then y - 1 else y) = y'
  have years' : -4714 ≤ y' ∧ y' ≤ 9999 := by
    split at named <;> omega
  generalize named' : (if m ≤ 2 then m + 12 else m) = m'
  have months' : -2 ^ 22 ≤ m' ∧ m' ≤ 2 ^ 22 + 12 := by
    split at named' <;> omega
  obtain ⟨lowA, highA⟩ : 0 ≤ (y' + 4800).tdiv 100 ∧ (y' + 4800).tdiv 100 ≤ 148 :=
    tdiv_bounds (by decide) (by omega) (by omega) (by decide) (by decide)
  obtain ⟨lowX, highX⟩ : 0 ≤ (36525 * (y' + 4716)).tdiv 100 ∧
      (36525 * (y' + 4716)).tdiv 100 ≤ 2 ^ 23 :=
    tdiv_bounds (by decide) (by omega) (by omega) (by decide) (by decide)
  obtain ⟨lowM, highM⟩ : -2 ^ 28 ≤ (306001 * (m' + 1)).tdiv 10000 ∧
      (306001 * (m' + 1)).tdiv 10000 ≤ 2 ^ 28 :=
    tdiv_bounds (by decide) (by omega) (by omega) (by decide) (by decide)
  have year : i64 y' = .ok y' := i64_of_bounds (by omega) (by omega)
  have month : i64 m' = .ok m' := i64_of_bounds (by omega) (by omega)
  have century : i64 (y' + 4800) = .ok (y' + 4800) := i64_of_bounds (by omega) (by omega)
  have shifted : i64 (y' + 4716) = .ok (y' + 4716) := i64_of_bounds (by omega) (by omega)
  have scaled : i64 (36525 * (y' + 4716)) = .ok (36525 * (y' + 4716)) :=
    i64_of_bounds (by omega) (by omega)
  have next : i64 (m' + 1) = .ok (m' + 1) := i64_of_bounds (by omega) (by omega)
  have scaled' : i64 (306001 * (m' + 1)) = .ok (306001 * (m' + 1)) :=
    i64_of_bounds (by omega) (by omega)
  simp only [year, month, century, shifted, scaled, next, scaled', Outcome.ok_bind]
  generalize (y' + 4800).tdiv 100 = a at *
  generalize (36525 * (y' + 4716)).tdiv 100 = x1 at *
  generalize (306001 * (m' + 1)).tdiv 10000 = x2 at *
  obtain ⟨lowQ, highQ⟩ : 0 ≤ a.tdiv 4 ∧ a.tdiv 4 ≤ 37 :=
    tdiv_bounds (by decide) (by omega) (by omega) (by decide) (by decide)
  generalize a.tdiv 4 = quarter at *
  simp (disch := omega) only [i64_of_bounds, Outcome.ok_bind]
  refine ⟨_, rfl, ?_⟩
  have number := @between_ofInt (x1 + x2 + d + (38 - a + quarter)) (-2 ^ 29) (2 ^ 29) (by omega)
    (by omega) (by decide) (by decide)
  have rest : Between (Float64.ofInt (x1 + x2 + d + (38 - a + quarter)) - 1524.5)
      (-2 ^ 30 : Int) (2 ^ 30 : Int) :=
    number.sub ⟨_, value_1524_5, le_rfl, le_rfl⟩ (.ofInt (by decide)) (.ofInt (by decide))
      (by norm_num) (by norm_num)
  have product : Between ((Float64.ofInt (x1 + x2 + d + (38 - a + quarter)) - 1524.5) * 86400000.0)
      (-2 ^ 57 : Int) (2 ^ 57 : Int) := by
    push_cast
    exact rest.mul value_86400000 (by norm_num) (@Bound.pow 57 (by decide)).neg (@Bound.pow 57 (by decide))
      (by norm_num) (by norm_num)
  exact asI64_between product (by decide) (by decide)

/-- A time of day as it is kept. -/
structure Timed (h min : Int) (s : Float64) : Prop where
  hours : 0 ≤ h ∧ h ≤ 99
  minutes : 0 ≤ min ∧ min ≤ 99
  seconds : -2 ^ 20 ≤ asI64 (s * 1000.0 + 0.5) ∧ asI64 (s * 1000.0 + 0.5) ≤ 2 ^ 20

/-- The time of day is the sum of its parts. -/
theorem timeToMs_sum {h min : Int} {s : Float64} (timed : Timed h min s) :
    timeToMs h min s = .ok (h * 3600000 + min * 60000 + asI64 (s * 1000.0 + 0.5)) := by
  obtain ⟨hours, minutes, seconds⟩ := timed
  unfold timeToMs
  generalize asI64 (s * 1000.0 + 0.5) = rest at *
  simp (disch := omega) only [i64_of_bounds, Outcome.ok_bind]

theorem timeToMs_ok {h min : Int} {s : Float64} (timed : Timed h min s) :
    ∃ ms, timeToMs h min s = .ok ms ∧ -2 ^ 30 ≤ ms ∧ ms ≤ 2 ^ 30 := by
  refine ⟨_, timeToMs_sum timed, ?_⟩
  obtain ⟨hours, minutes, seconds⟩ := timed
  omega

/-! ## Computing one from the other -/

/-- The Julian day in range, and date and time of day, where they are kept, as they can be. -/
structure Sound (p : DateTime) : Prop where
  julian : Fits p.ijd
  dated : p.validYmd = true → Dated p.y p.m p.d
  timed : p.validHms = true → Timed p.h p.min p.s

/-- The Julian day counts: it is kept, or cannot be computed again. -/
def live (p : DateTime) : Bool := p.validJd || p.stuck

/-- A date that can be turned to a Julian day is near. -/
theorem Sound.near {p : DateTime} (sound : p.Sound) (free : p.stuck = false) :
    (-4713 ≤ p.ymd.1 ∧ p.ymd.1 ≤ 9999) ∧ (-2 ^ 22 ≤ p.ymd.2.1 ∧ p.ymd.2.1 ≤ 2 ^ 22) ∧
      (-2 ^ 27 ≤ p.ymd.2.2 ∧ p.ymd.2.2 ≤ 2 ^ 27) := by
  rw [stuck, Bool.or_eq_false_iff, Bool.not_eq_false', Bool.and_eq_true, decide_eq_true_iff,
    decide_eq_true_iff] at free
  refine ⟨free.1, ?_⟩
  have inYears := free.1
  unfold ymd at inYears ⊢
  split
  · rename_i valid
    rw [if_pos valid] at inYears
    have near := (sound.dated valid).near
    dsimp only at inYears ⊢
    omega
  · decide

/-- The Julian day can be computed: a date that can be turned to one is near. -/
structure Countable (p : DateTime) : Prop where
  julian : Fits p.ijd
  near : p.stuck = false → (-4713 ≤ p.ymd.1 ∧ p.ymd.1 ≤ 9999) ∧
    (-2 ^ 22 ≤ p.ymd.2.1 ∧ p.ymd.2.1 ≤ 2 ^ 22) ∧ (-2 ^ 27 ≤ p.ymd.2.2 ∧ p.ymd.2.2 ≤ 2 ^ 27)
  timed : p.validHms = true → Timed p.h p.min p.s

theorem Sound.countable {p : DateTime} (sound : p.Sound) : p.Countable :=
  ⟨sound.julian, sound.near, sound.timed⟩

theorem Countable.computeJd {p : DateTime} (countable : p.Countable) :
    ∃ ijd validJd error, p.computeJd = .ok { p with ijd, validJd, error } ∧ Fits ijd ∧
      (p.live = true → ijd = p.ijd) ∧ (p.live = false → -2 ^ 58 ≤ ijd ∧ ijd ≤ 2 ^ 58) ∧
      (error = false → validJd = true) := by
  unfold DateTime.computeJd live
  cases valid : p.validJd with
  | true =>
      refine ⟨p.ijd, true, p.error, ?_, countable.julian, fun _ => rfl, nofun, fun _ => rfl⟩
      rw [if_pos rfl, ← valid]
  | false =>
      rw [if_neg Bool.false_ne_true, Bool.false_or]
      cases held : p.stuck with
      | true =>
          refine ⟨p.ijd, false, true, ?_, countable.julian, fun _ => rfl, nofun, nofun⟩
          rw [if_pos rfl, ← valid]
      | false =>
          rw [if_neg Bool.false_ne_true]
          obtain ⟨years, months, days⟩ := countable.near held
          obtain ⟨ijd, computed, low, high⟩ := daysToMs_ok years months days
          simp only [computed, Outcome.ok_bind]
          split
          · rename_i timed
            obtain ⟨ms, time, low', high'⟩ := timeToMs_ok (countable.timed timed)
            have sum : i64 (ijd + ms) = .ok (ijd + ms) := i64_of_bounds (by omega) (by omega)
            simp only [time, sum, Outcome.ok_bind]
            exact ⟨ijd + ms, true, p.error, rfl, ⟨by omega, by omega⟩, nofun,
              fun _ => ⟨by omega, by omega⟩, fun _ => rfl⟩
          · exact ⟨ijd, true, p.error, rfl, ⟨by omega, by omega⟩, nofun,
              fun _ => ⟨by omega, by omega⟩, fun _ => rfl⟩

theorem computeJd_spec {p : DateTime} (sound : p.Sound) :
    ∃ ijd validJd error, p.computeJd = .ok { p with ijd, validJd, error } ∧ Fits ijd ∧
      (p.live = true → ijd = p.ijd) ∧ (p.live = false → -2 ^ 58 ≤ ijd ∧ ijd ≤ 2 ^ 58) ∧
      (error = false → validJd = true) :=
  sound.countable.computeJd

/-- The Julian day can be read as a date. -/
def DateRoom (p : DateTime) : Prop :=
  p.validJd = true → p.validYmd = false → Fits (p.ijd + 43200000)

theorem dated_default : Dated 2000 1 1 :=
  ⟨⟨by decide, by decide⟩, ⟨by decide, by decide⟩, ⟨by decide, by decide⟩,
    .inl ⟨⟨by decide, by decide⟩, by decide, by decide⟩⟩

theorem computeYmd_ok {p : DateTime} (sound : p.Sound) (room : p.DateRoom) :
    ∃ y m d, p.computeYmd = .ok { p with y, m, d, validYmd := true } ∧ Dated y m d ∧
      (p.validJd = false → (y, m, d) = p.ymd) := by
  unfold computeYmd
  cases dated : p.validYmd with
  | true =>
      refine ⟨p.y, p.m, p.d, ?_, sound.dated dated, fun _ => ?_⟩
      · rw [if_pos rfl, ← dated]
      · rw [ymd, if_pos dated]
  | false =>
      rw [if_neg Bool.false_ne_true]
      cases valid : p.validJd with
      | false =>
          refine ⟨2000, 1, 1, ?_, dated_default, fun _ => ?_⟩
          · rw [Bool.not_false, if_pos rfl]
          · rw [ymd, if_neg (by rw [dated]; exact Bool.false_ne_true)]
      | true =>
          obtain ⟨y, m, d, computed, held⟩ := msToDate_ok sound.julian (room valid dated)
          refine ⟨y, m, d, ?_, held, nofun⟩
          rw [Bool.not_true, if_neg Bool.false_ne_true, computed]
          rfl

theorem computeYmd_room {p q : DateTime} (computed : p.computeYmd = .ok q) : p.DateRoom := by
  intro valid undated
  unfold computeYmd at computed
  rw [undated, valid, if_neg Bool.false_ne_true, Bool.not_true, if_neg Bool.false_ne_true] at computed
  obtain ⟨date, read, _⟩ := Outcome.bind_eq_ok.mp computed
  obtain ⟨sum, fits, _⟩ := Outcome.bind_eq_ok.mp read
  exact (i64_eq_ok.mp fits).1

/-- The Julian day can be read as a time of day. -/
def TimeRoom (p : DateTime) : Prop :=
  p.validHms = false → p.live = true → Fits (p.ijd + 43200000)

theorem value_1000 : HasValue 1000.0 1000 :=
  literal_exact (by decide) (by decide) (by decide) (@Bound.ofInt 1000 (by decide)) (by norm_num)

theorem value_half : HasValue 0.5 (1 / 2) :=
  literal_exact (by decide) (by decide) (by decide)
    ⟨⟨1, -1, by decide, by decide, by norm_num⟩, by norm_num⟩ (by norm_num)

/-- Seconds of a minute, or of a time that was written, are few milliseconds. -/
theorem seconds_bounds {s : Float64} (between : Between s (-128 : Int) (128 : Int)) :
    -2 ^ 20 ≤ asI64 (s * 1000.0 + 0.5) ∧ asI64 (s * 1000.0 + 0.5) ≤ 2 ^ 20 := by
  have millis : Between (s * 1000.0) (-128000 : Int) (128000 : Int) :=
    between.mul value_1000 (by norm_num) (.ofInt (by decide)) (.ofInt (by decide))
      (by norm_num) (by norm_num)
  have rounded : Between (s * 1000.0 + 0.5) (-2 ^ 20 : Int) (2 ^ 20 : Int) :=
    millis.add ⟨_, value_half, le_rfl, le_rfl⟩ (.ofInt (by decide)) (.ofInt (by decide))
      (by norm_num) (by norm_num)
  exact asI64_between rounded (by decide) (by decide)

theorem timed_of_ms {dayMs : Int} (low : 0 ≤ dayMs) (high : dayMs < 86400000) :
    Timed (dayMs / 60000 / 60) (dayMs / 60000 % 60) (Float64.ofInt (dayMs % 60000) / 1000.0) := by
  refine ⟨⟨by omega, by omega⟩, ⟨by omega, by omega⟩, ?_⟩
  have number := @between_ofInt (dayMs % 60000) 0 60000 (by omega) (by omega) (by decide) (by decide)
  exact seconds_bounds (number.div value_1000 (by norm_num) (.ofInt (by decide)) (.ofInt (by decide))
    (by norm_num) (by norm_num))

theorem computeHms_ok {p : DateTime} (sound : p.Sound) (room : p.TimeRoom) :
    ∃ q, p.computeHms = .ok q ∧ q.Sound ∧ q.validHms = true ∧
      (q.y, q.m, q.d, q.validYmd, q.useSubsec) = (p.y, p.m, p.d, p.validYmd, p.useSubsec) ∧
      (p.live = true → q.ijd = p.ijd) ∧ (p.validJd = true → q.validJd = true) := by
  unfold computeHms
  cases timed : p.validHms with
  | true =>
      rw [if_pos rfl]
      exact ⟨p, rfl, sound, timed, rfl, fun _ => rfl, id⟩
  | false =>
      rw [if_neg Bool.false_ne_true]
      obtain ⟨ijd, validJd, error, computed, fits, kept, fresh, _⟩ := computeJd_spec sound
      have sum : Fits (ijd + 43200000) := by
        cases live : p.live with
        | true =>
            rw [kept live]
            exact room timed live
        | false =>
            have bounds := fresh live
            exact ⟨by omega, by omega⟩
      have still : p.validJd = true → validJd = true := by
        intro valid
        unfold computeJd at computed
        rw [if_pos valid] at computed
        injection computed with same
        exact (congrArg DateTime.validJd same).symm.trans valid
      simp only [computed, i64_of_fits sum, Outcome.ok_bind]
      refine ⟨_, rfl, ⟨fits, sound.dated, fun _ => ?_⟩, rfl, rfl, kept, still⟩
      exact timed_of_ms (Int.emod_nonneg _ (by decide)) (Int.emod_lt_of_pos _ (by decide))

theorem computeHms_room {p q : DateTime} (sound : p.Sound) (computed : p.computeHms = .ok q) :
    p.TimeRoom := by
  intro untimed live
  unfold computeHms at computed
  rw [untimed, if_neg Bool.false_ne_true] at computed
  obtain ⟨ijd, validJd, error, julian, _, kept, _⟩ := computeJd_spec sound
  simp only [julian, Outcome.ok_bind] at computed
  obtain ⟨sum, fits, _⟩ := Outcome.bind_eq_ok.mp computed
  rw [← kept live]
  exact (i64_eq_ok.mp fits).1

/-- The Julian day can be read as a date and a time of day. -/
def DayRoom (p : DateTime) : Prop := p.DateRoom ∧ p.TimeRoom

/-- A date does not change whether the Julian day counts. -/
theorem live_dated {p : DateTime} {y m d : Int} (same : p.validJd = false → (y, m, d) = p.ymd) :
    live { p with y, m, d, validYmd := true } = p.live := by
  change (p.validJd || stuck { p with y, m, d, validYmd := true }) = (p.validJd || p.stuck)
  by_cases valid : p.validJd = true
  · rw [valid, Bool.true_or, Bool.true_or]
  · have date : ymd { p with y, m, d, validYmd := true } = p.ymd := same (Bool.not_eq_true _ ▸ valid)
    rw [stuck, date]
    rfl

theorem Sound.withDate {p : DateTime} (sound : p.Sound) {y m d : Int} (held : Dated y m d) :
    Sound { p with y, m, d, validYmd := true } :=
  ⟨sound.julian, fun _ => held, sound.timed⟩

/-- **Date and time of day** are computed if the Julian day can be read. -/
theorem computeYmdHms_ok {p : DateTime} (sound : p.Sound) (room : p.DayRoom) :
    ∃ q, p.computeYmdHms = .ok q ∧ q.Sound ∧ q.validYmd = true ∧ q.validHms = true ∧
      q.useSubsec = p.useSubsec ∧ (p.live = true → q.ijd = p.ijd) ∧
      (p.validJd = true → q.validJd = true) := by
  obtain ⟨y, m, d, dated, held, same⟩ := computeYmd_ok sound room.1
  have live := live_dated same
  have room' : TimeRoom { p with y, m, d, validYmd := true } := by
    intro untimed live'
    exact room.2 untimed (live.symm.trans live')
  obtain ⟨q, timed, sound', validHms, fields, kept, valid⟩ :=
    computeHms_ok (sound.withDate held) room'
  simp only [Prod.mk.injEq] at fields
  refine ⟨q, ?_, sound', fields.2.2.2.1, validHms, fields.2.2.2.2,
    fun live' => kept (live.trans live'), valid⟩
  unfold computeYmdHms
  rw [dated, Outcome.ok_bind, timed]

theorem computeYmdHms_room {p q : DateTime} (sound : p.Sound) (computed : p.computeYmdHms = .ok q) :
    p.DayRoom := by
  obtain ⟨between, dated, timed⟩ := Outcome.bind_eq_ok.mp computed
  have room := computeYmd_room dated
  refine ⟨room, fun untimed live => ?_⟩
  obtain ⟨y, m, d, dated', held, same⟩ := computeYmd_ok sound room
  obtain rfl : _ = between := Except.ok.inj (dated'.symm.trans dated)
  have room' := computeHms_room (sound.withDate held) timed
  exact room' untimed ((live_dated same).trans live)

end DateTime

end Squrust.Sql
