import Squrust.Sql.DateTimeCalendar
import Squrust.Sql.DateTimeDigits

/-!
# Seconds and their texts

The text that `datetime` writes for a number of seconds since 1970 is one that `unixepoch` reads
as that number (`unixepoch_datetime`): what is computed with doubles is computed without an
error, the date of a Julian day counts as that Julian day, and what is written with four and
two digits is read back.
-/

set_option autoImplicit false

namespace Squrust.Sql

open Squrust.Foundation Squrust.Foundation.Float64

namespace DateTime

/-! ## Seconds since 1970 -/

theorem hasValue_unixEpochMs : HasValue (Float64.ofInt unixEpochMs) (unixEpochMs : Int) :=
  HasValue.ofInt_exact (by decide)

theorem hasValue_maxIjd : HasValue (Float64.ofInt maxIjd) (maxIjd : Int) :=
  HasValue.ofInt_exact (by decide)

/-- A number is between bounds exactly if its value is. -/
theorem within_iff {low high x : Float64} {l h a : ℚ} (low_ : HasValue low l) (high_ : HasValue high h)
    (value : HasValue x a) : within low high x = true ↔ l ≤ a ∧ a < h := by
  rw [within, Bool.and_eq_true, low_.le_iff value, value.lt_iff high_]

/-- The Julian day of a number of seconds. -/
theorem hasValue_seconds {n : Int} (few : n.natAbs ≤ 2 ^ 40) :
    HasValue (Float64.ofInt n * 1000.0 + Float64.ofInt unixEpochMs) (1000 * n + unixEpochMs : Int) := by
  have product : HasValue (Float64.ofInt n * 1000.0) (1000 * n : Int) := by
    have bound := @Bound.ofInt (1000 * n) (by omega)
    have same : ((1000 * n : Int) : ℚ) = n * 1000 := by
      push_cast
      ring
    rw [same] at bound ⊢
    exact (HasValue.ofInt_exact (by omega)).mul_exact value_1000 bound
  have bound := @Bound.ofInt (1000 * n + unixEpochMs) (by unfold unixEpochMs; omega)
  push_cast at bound product ⊢
  exact product.add_exact hasValue_unixEpochMs bound

/-- The Julian day of a number of seconds is in range exactly if it is as an integer. -/
theorem within_seconds {n : Int} (fits : Fits n) :
    within 0.0 (Float64.ofInt maxIjd) (Float64.ofInt n * 1000.0 + Float64.ofInt unixEpochMs) = true ↔
      0 ≤ 1000 * n + unixEpochMs ∧ 1000 * n + unixEpochMs < maxIjd := by
  obtain ⟨low, high⟩ := fits
  have power (k : Nat) (small : k ≤ 200) : Bound ((2 : ℚ) ^ k) := .pow small
  by_cases few : n.natAbs ≤ 2 ^ 40
  · rw [within_iff hasValue_zero hasValue_maxIjd (hasValue_seconds few)]
    exact_mod_cast Iff.rfl
  · -- Large numbers stay out of range however they are rounded.
    rcases Int.le_total 0 n with late | early
    · have number : Between (Float64.ofInt n) (2 ^ 40) (2 ^ 63) := by
        refine Between.ofInt (power 40 (by decide)) (power 63 (by decide)) ?_ ?_
        · exact_mod_cast (by omega : (2 : Int) ^ 40 ≤ n)
        · exact_mod_cast high.le
      have product : Between (Float64.ofInt n * 1000.0) (2 ^ 49) (2 ^ 73) :=
        number.mul value_1000 (by norm_num) (power 49 (by decide)) (power 73 (by decide))
          (by norm_num) (by norm_num)
      have sum : Between (Float64.ofInt n * 1000.0 + Float64.ofInt unixEpochMs) (2 ^ 49) (2 ^ 74) :=
        product.add ⟨_, hasValue_unixEpochMs, le_rfl, le_rfl⟩ (power 49 (by decide))
          (power 74 (by decide)) (by unfold unixEpochMs; norm_num) (by unfold unixEpochMs; norm_num)
      obtain ⟨v, value, below, _⟩ := sum
      rw [within_iff hasValue_zero hasValue_maxIjd value]
      constructor
      · rintro ⟨_, less⟩
        unfold maxIjd at less
        norm_num at less below
        linarith
      · rintro ⟨_, less⟩
        unfold maxIjd unixEpochMs at less
        omega
    · have number : Between (Float64.ofInt n) (-2 ^ 63) (-2 ^ 40) := by
        refine Between.ofInt (power 63 (by decide)).neg (power 40 (by decide)).neg ?_ ?_
        · exact_mod_cast low
        · exact_mod_cast (by omega : n ≤ -2 ^ 40)
      have product : Between (Float64.ofInt n * 1000.0) (-2 ^ 73) (-2 ^ 49) :=
        number.mul value_1000 (by norm_num) (power 73 (by decide)).neg (power 49 (by decide)).neg
          (by norm_num) (by norm_num)
      have sum : Between (Float64.ofInt n * 1000.0 + Float64.ofInt unixEpochMs) (-2 ^ 73) (-2 ^ 48) :=
        product.add ⟨_, hasValue_unixEpochMs, le_rfl, le_rfl⟩ (power 73 (by decide)).neg
          (power 48 (by decide)).neg (by unfold unixEpochMs; norm_num)
          (by unfold unixEpochMs; norm_num)
      obtain ⟨v, value, _, above⟩ := sum
      rw [within_iff hasValue_zero hasValue_maxIjd value]
      constructor
      · rintro ⟨positive, _⟩
        norm_num at above
        linarith
      · rintro ⟨positive, _⟩
        unfold unixEpochMs at positive
        omega

/-- The Julian day that a number of seconds stands for. -/
theorem asI64_seconds {n : Int} (first : 0 ≤ 1000 * n + unixEpochMs)
    (last : 1000 * n + unixEpochMs < maxIjd) :
    asI64 (Float64.ofInt n * 1000.0 + Float64.ofInt unixEpochMs + 0.5) = 1000 * n + unixEpochMs := by
  unfold unixEpochMs at first last
  unfold maxIjd at last
  have value := @hasValue_seconds n (by omega)
  generalize named : 1000 * n + unixEpochMs = v at value ⊢
  have bounds : 0 ≤ v ∧ v < 464269060800000 := by
    unfold unixEpochMs at named
    omega
  have rounded : Between (Float64.ofInt n * 1000.0 + Float64.ofInt unixEpochMs + 0.5) v
      ((2 * v + 1 : Int) / 2 ^ 1) := by
    refine Between.add ⟨_, value, le_rfl, le_rfl⟩ ⟨_, value_half, le_rfl, le_rfl⟩
      (.ofInt (by omega)) (.dyadic (by omega) (by decide)) ?_ ?_
    · linarith
    · push_cast
      linarith
  refine asI64_of_between rounded le_rfl ?_ bounds.1 (by omega)
  push_cast
  linarith

end DateTime

/-- A number of seconds is the Julian day it stands for, if that is in range. -/
theorem build_seconds {machine : Machine} {n : Int64} {p : DateTime}
    (run : DateTime.build machine (.integer n) [.text "unixepoch".toList] = .ok (some p)) :
    (0 ≤ 1000 * n.toInt + unixEpochMs ∧ 1000 * n.toInt + unixEpochMs < maxIjd) ∧
      p = { DateTime.blank with ijd := 1000 * n.toInt + unixEpochMs, validJd := true } := by
  have fits : Fits n.toInt := ⟨n.le_toInt, n.toInt_lt⟩
  have number : readFirst machine (.integer n) =
      .ok (some (DateTime.blank.setRawNumber (Float64.ofInt n.toInt))) := rfl
  have read : readModifier "unixepoch".toList = .ok (some .unixepoch) := by rfl
  have raw : (DateTime.blank.setRawNumber (Float64.ofInt n.toInt)).rawS =
      some (Float64.ofInt n.toInt) := by
    unfold DateTime.setRawNumber
    split
    · rfl
    · rfl
  have other (ijd : Int) : { (DateTime.blank.setRawNumber (Float64.ofInt n.toInt)).clearDerived with
      ijd, validJd := true, rawS := none } = { DateTime.blank with ijd, validJd := true } := by
    unfold DateTime.setRawNumber
    split
    · rfl
    · rfl
  have applied : (DateTime.blank.setRawNumber (Float64.ofInt n.toInt)).applyModifier 1 .unixepoch =
      .ok (if 0 ≤ 1000 * n.toInt + unixEpochMs ∧ 1000 * n.toInt + unixEpochMs < maxIjd then
        some { DateTime.blank with ijd := 1000 * n.toInt + unixEpochMs, validJd := true }
      else none) := by
    rw [DateTime.applyModifier, if_neg (by decide), raw, Option.map_some, Option.bind_some]
    by_cases inRange : 0 ≤ 1000 * n.toInt + unixEpochMs ∧ 1000 * n.toInt + unixEpochMs < maxIjd
    · rw [if_pos inRange, if_pos ((DateTime.within_seconds fits).mpr inRange), other,
        DateTime.asI64_seconds inRange.1 inRange.2]
    · rw [if_neg inRange, if_neg (mt (DateTime.within_seconds fits).mp inRange)]
  unfold DateTime.build at run
  rw [number] at run
  simp only [Outcome.ok_bind, applyModifiers, parseModifier, Value.toDisplayString, read, applied]
    at run
  by_cases inRange : 0 ≤ 1000 * n.toInt + unixEpochMs ∧ 1000 * n.toInt + unixEpochMs < maxIjd
  · rw [if_pos inRange] at run
    refine ⟨inRange, ?_⟩
    have finished : finishBuild false
        { DateTime.blank with ijd := 1000 * n.toInt + unixEpochMs, validJd := true } =
          .ok (some { DateTime.blank with ijd := 1000 * n.toInt + unixEpochMs, validJd := true }) := by
      unfold finishBuild DateTime.computeJd
      rw [if_pos rfl, Outcome.ok_bind, if_neg]
      · rfl
      · simp only [DateTime.blank, Bool.false_or, Bool.not_eq_true', Bool.and_eq_false_iff,
          decide_eq_false_iff_not]
        omega
    exact Option.some.inj (Except.ok.inj (run.symm.trans finished))
  · rw [if_neg inRange] at run
    cases run

namespace DateTime

/-! ## The text of a number of seconds -/

/-- The seconds of the minute, when the Julian day is one of whole seconds. -/
theorem value_seconds {dayMs : Int} (low : 0 ≤ dayMs) (whole : dayMs % 1000 = 0) :
    HasValue (Float64.ofInt (dayMs % 60000) / 1000.0) (dayMs % 60000 / 1000 : Int) := by
  have same : ((dayMs % 60000 / 1000 : Int) : ℚ) = (dayMs % 60000 : Int) / 1000 := by
    have parts : dayMs % 60000 = dayMs % 60000 / 1000 * 1000 := by omega
    have parts_ : ((dayMs % 60000 : Int) : ℚ) = (dayMs % 60000 / 1000 : Int) * 1000 := by
      exact_mod_cast parts
    rw [parts_, mul_div_cancel_right₀ _ (by norm_num)]
  have bound := @Bound.ofInt (dayMs % 60000 / 1000) (by omega)
  rw [same] at bound ⊢
  exact (HasValue.ofInt_exact (by omega)).div_exact value_1000 (by norm_num) bound

/-- The date and the time of day of a Julian day of whole seconds. -/
theorem computeYmdHms_seconds {p q : DateTime} (valid : p.validJd = true) (undated : p.validYmd = false)
    (untimed : p.validHms = false) (inRange : 0 ≤ p.ijd ∧ p.ijd ≤ maxIjd) (whole : p.ijd % 1000 = 0)
    (run : p.computeYmdHms = .ok q) :
    q.y = yearOf (filledDay (dayIn p.ijd)) ∧ q.m = monthOf (filledDay (dayIn p.ijd)) ∧
      q.d = dayOf (filledDay (dayIn p.ijd)) ∧ q.h = msOfDay p.ijd / 60000 / 60 ∧
      q.min = msOfDay p.ijd / 60000 % 60 ∧ asI64 q.s = msOfDay p.ijd % 60000 / 1000 ∧
      q.useSubsec = p.useSubsec := by
  have reach : p.ijd ≤ 464269060800000 := inRange.2
  obtain ⟨between, dated, timed⟩ := Outcome.bind_eq_ok.mp run
  obtain ⟨y, m, d, read, rfl⟩ := computeYmd_fresh valid undated dated
  obtain ⟨rfl, rfl, rfl⟩ := msToDate_eq ⟨by omega, by omega⟩ read (.inr inRange)
  obtain rfl := computeHms_fresh (by exact valid) (by exact untimed) timed
  refine ⟨rfl, rfl, rfl, rfl, rfl, ?_, rfl⟩
  have seconds := @value_seconds (msOfDay p.ijd) (by unfold msOfDay; omega) (by unfold msOfDay; omega)
  exact asI64_of_int seconds ⟨by omega, by omega⟩

/-- What was written is the Julian day that its parts count to. -/
theorem computeJd_written {p : DateTime} {sec : Int} (invalid : p.validJd = false)
    (dated : p.validYmd = true) (timed : p.validHms = true) (number : p.rawS = none)
    (years : -4713 ≤ p.y ∧ p.y ≤ 9999) (months : 1 ≤ p.m ∧ p.m ≤ 12) (days : 1 ≤ p.d ∧ p.d ≤ 31)
    (hours : 0 ≤ p.h ∧ p.h ≤ 99) (minutes : 0 ≤ p.min ∧ p.min ≤ 99) (seconds : 0 ≤ sec ∧ sec ≤ 99)
    (value : HasValue p.s sec) {ijd : Int} (few : -2 ^ 62 ≤ ijd ∧ ijd ≤ 2 ^ 62)
    (sum : dayNumber p.y p.m p.d * 86400000 - 43200000 +
      (p.h * 3600000 + p.min * 60000 + sec * 1000) = ijd) :
    p.computeJd = .ok { p with ijd, validJd := true } := by
  have date : p.ymd = (p.y, p.m, p.d) := by rw [ymd, if_pos dated]
  have free : p.stuck = false := by
    rw [stuck, date, number]
    simp [years]
  unfold computeJd
  rw [invalid, free, date, if_neg Bool.false_ne_true, if_neg Bool.false_ne_true]
  simp only [daysToMs_eq years months days, timeToMs_eq hours minutes seconds value, Outcome.ok_bind,
    timed, sum, i64_of_bounds few.1 few.2]
  rfl

end DateTime

/-! ## The round trip -/

/-- The text of a date and time of few digits. -/
theorem stampText_eq {y m d h min sec : Nat} (years : y < 10000) (months : m < 100) (days : d < 100)
    (hours : h < 100) (minutes : min < 100) (seconds : sec < 100) :
    padZeros 4 (y : Int) ++ ['-'] ++ padZeros 2 (m : Int) ++ ['-'] ++ padZeros 2 (d : Int) ++ [' '] ++
      (padZeros 2 (h : Int) ++ [':'] ++ padZeros 2 (min : Int)) ++ [':'] ++ padZeros 2 (sec : Int) =
      stampText y m d h min sec := by
  rw [padZeros_four years, padZeros_two months, padZeros_two days, padZeros_two hours,
    padZeros_two minutes, padZeros_two seconds]
  rfl

theorem padZeros_negative {width : Nat} {n : Int} (negative : n < 0) :
    ∃ digits, padZeros width n = '-' :: digits := by
  rw [padZeros, if_pos negative]
  exact ⟨_, rfl⟩

theorem fourDigits_inj {y y' : Nat} (years : y < 10000) (years' : y' < 10000)
    (same : padZeros 4 (y : Int) = padZeros 4 (y' : Int)) : y = y' := by
  rw [padZeros_four years, padZeros_four years'] at same
  simp only [List.cons.injEq, and_true] at same
  obtain ⟨first, second, third, last⟩ := same
  have := lastDigit_inj first
  have := lastDigit_inj second
  have := lastDigit_inj third
  have := lastDigit_inj last
  omega

/-- A text that begins with a year of four digits is of that year. -/
theorem year_of_text {y y' : Int} {rest rest' : Text} (years : 0 ≤ y ∧ y ≤ 9999)
    (years' : y' ≤ 10000) (same : padZeros 4 y' ++ '-' :: rest' = padZeros 4 y ++ '-' :: rest) :
    y' = y := by
  lift y to ℕ using years.1
  have small : y < 10000 := by omega
  by_cases negative : y' < 0
  · obtain ⟨digits, text⟩ := @padZeros_negative 4 y' negative
    rw [text, padZeros_four small] at same
    exact absurd (List.head_eq_of_cons_eq same).symm (lastDigit_ne (by decide) _)
  · lift y' to ℕ using Int.not_lt.mp negative
    by_cases large : y' = 10000
    · subst large
      have five : padZeros 4 ((10000 : Nat) : Int) = ['1', '0', '0', '0', '0'] := by decide
      rw [five, padZeros_four small] at same
      simp at same
    · have small' : y' < 10000 := by omega
      have front := (List.append_inj same (by rw [padZeros_four small, padZeros_four small']; rfl)).1
      rw [fourDigits_inj small' small front]

/-- The year of a Julian day in range. -/
theorem yearOf_le {ijd : Int} (first : 0 ≤ ijd) (last : ijd ≤ maxIjd) :
    yearOf (filledDay (DateTime.dayIn ijd)) ≤ 10000 := by
  have days : 0 ≤ DateTime.dayIn ijd ∧ DateTime.dayIn ijd ≤ 5373485 := by
    rw [DateTime.dayIn, Int.tdiv_eq_ediv_of_nonneg (by omega)]
    unfold maxIjd at last
    omega
  have filled : filledDay (DateTime.dayIn ijd) ≤ 5375100 := by
    unfold filledDay centuryOf
    omega
  have years : yearFromMarch (filledDay (DateTime.dayIn ijd)) ≤ 14715 := by
    unfold yearFromMarch
    omega
  unfold yearOf
  split <;> omega

/-- What is kept of a text of date and time. -/
theorem readFirst_stamp {machine : Machine} {y m d h min sec : Nat} (years : y < 10000)
    (months : 1 ≤ m ∧ m ≤ 12) (days : 1 ≤ d ∧ d ≤ 31) (hours : h < 100) (minutes : min < 100)
    (seconds : sec < 100) :
    ∃ p, readFirst machine (.text (stampText y m d h min sec)) = .ok (some p) ∧
      (p.validJd = false ∧ p.validYmd = true ∧ p.validHms = true ∧ p.rawS = none ∧
        p.error = false ∧ p.useSubsec = false) ∧
      p.y = y ∧ p.m = m ∧ p.d = d ∧ p.h = h ∧ p.min = min ∧ HasValue p.s ((sec : Int) : ℚ) := by
  have read := @parseDateOrTime_written machine y m d h min sec years months days hours minutes
    seconds DateTime.blank
  exact ⟨_, read, ⟨rfl, rfl, rfl, rfl, rfl, rfl⟩, rfl, rfl, rfl, rfl, rfl, value_written sec seconds⟩

/-- What is read from a text of date and time is the number of seconds that it counts to. -/
theorem unixepoch_stamp {machine : Machine} {y m d h min sec : Nat} {n : Int} (years : y < 10000)
    (months : 1 ≤ m ∧ m ≤ 12) (days : 1 ≤ d ∧ d ≤ 31) (hours : h < 100) (minutes : min < 100)
    (seconds : sec < 100) (inRange : 0 ≤ 1000 * n + unixEpochMs ∧ 1000 * n + unixEpochMs ≤ maxIjd)
    (sum : dayNumber y m d * 86400000 - 43200000 + (h * 3600000 + min * 60000 + sec * 1000) =
      1000 * n + unixEpochMs) :
    unixepoch machine [.text (stampText y m d h min sec)] = .ok (.integer (Int64.ofInt n)) := by
  have reach : 1000 * n + unixEpochMs ≤ 464269060800000 := inRange.2
  obtain ⟨p, read, ⟨invalid, dated, timed, number, error, subsec⟩, year, month, day, hour, minute,
    value⟩ := @readFirst_stamp machine y m d h min sec years months days hours minutes seconds
  have julian : p.computeJd = .ok { p with ijd := 1000 * n + unixEpochMs, validJd := true } := by
    refine DateTime.computeJd_written invalid dated timed number (by omega) (by omega) (by omega)
      (by omega) (by omega) (by omega) value ⟨by omega, by omega⟩ ?_
    rw [year, month, day, hour, minute]
    exact sum
  obtain ⟨q, finished, kept⟩ : ∃ q, finishBuild true p = .ok (some q) ∧
      q.ijd = 1000 * n + unixEpochMs ∧ q.validJd = true ∧ q.useSubsec = false := by
    unfold finishBuild
    rw [julian, Outcome.ok_bind]
    dsimp only
    rw [error, if_neg (by simpa using inRange)]
    split
    · exact ⟨_, rfl, rfl, rfl, subsec⟩
    · exact ⟨_, rfl, rfl, rfl, subsec⟩
  have moments : moment machine [.text (stampText y m d h min sec)] = .ok (some q) := by
    rw [moment, DateTime.build, read]
    exact finished
  have quotient : q.ijd.tdiv 1000 - unixEpochMs.tdiv 1000 = n := by
    rw [kept.1, Int.tdiv_eq_ediv_of_nonneg inRange.1]
    have epoch : unixEpochMs.tdiv 1000 = 210866760000 := by decide
    rw [epoch]
    unfold unixEpochMs
    omega
  have held : i64 n = .ok n := by
    unfold unixEpochMs at inRange reach
    exact i64_of_bounds (by omega) (by omega)
  unfold unixepoch onMoment
  rw [moments, Outcome.ok_bind]
  dsimp only
  rw [DateTime.computeJd, if_pos kept.2.1, Outcome.ok_bind, if_neg (by rw [kept.2.2]; decide),
    quotient, held]
  rfl

/-- **The round trip.** The text of a number of seconds since 1970, when its year is one of four
digits, is read as that number. -/
theorem unixepoch_datetime {machine : Machine} {n : Int64} {text : Text} {y : Int} {rest : Text}
    (run : datetime machine [.integer n, .text "unixepoch".toList] = .ok (.text text))
    (shape : text = padZeros 4 y ++ '-' :: rest) (years : 0 ≤ y ∧ y ≤ 9999) :
    unixepoch machine [.text text] = .ok (.integer n) := by
  unfold datetime onMoment at run
  obtain ⟨built, build, run⟩ := Outcome.bind_eq_ok.mp run
  cases built with
  | none => cases run
  | some p =>
    obtain ⟨⟨first, last⟩, rfl⟩ := build_seconds build
    obtain ⟨q, computed, written⟩ := Outcome.bind_eq_ok.mp run
    obtain ⟨year, month, day, hour, minute, second, subsec⟩ :=
      DateTime.computeYmdHms_seconds rfl rfl rfl ⟨first, last.le⟩
        (by unfold unixEpochMs; dsimp only; omega) computed
    obtain rfl := Value.text.inj (Outcome.pure_eq_ok.mp written)
    dsimp only at year month day hour minute second subsec
    have counted := dayNumber_of_filledDay (DateTime.dayIn (1000 * n.toInt + unixEpochMs))
    have date := isDate_of_filledDay (DateTime.dayIn (1000 * n.toInt + unixEpochMs))
    have most := yearOf_le first last.le
    rw [← year, ← month, ← day] at counted date
    rw [← year] at most
    obtain rfl : q.y = y := by
      simp only [DateTime.dateText, List.append_assoc, List.singleton_append] at shape
      exact year_of_text years most shape
    have day_le := date.day_le
    obtain ⟨⟨monthLow, monthHigh⟩, dayLow, _⟩ := date
    have dayMs : 0 ≤ DateTime.msOfDay (1000 * n.toInt + unixEpochMs) ∧
        DateTime.msOfDay (1000 * n.toInt + unixEpochMs) < 86400000 := by
      unfold DateTime.msOfDay
      omega
    obtain ⟨yearN, yearEq⟩ := Int.eq_ofNat_of_zero_le years.1
    obtain ⟨monthN, monthEq⟩ := Int.eq_ofNat_of_zero_le (by omega : 0 ≤ q.m)
    obtain ⟨dayN, dayEq⟩ := Int.eq_ofNat_of_zero_le (by omega : 0 ≤ q.d)
    obtain ⟨hourN, hourEq⟩ := Int.eq_ofNat_of_zero_le (by omega : 0 ≤ q.h)
    obtain ⟨minN, minEq⟩ := Int.eq_ofNat_of_zero_le (by omega : 0 ≤ q.min)
    obtain ⟨secN, secEq⟩ := Int.eq_ofNat_of_zero_le (by omega : 0 ≤ asI64 q.s)
    have text : q.dateText ++ [' '] ++ q.minuteText ++ [':'] ++ q.secondText =
        stampText yearN monthN dayN hourN minN secN := by
      rw [DateTime.dateText, DateTime.minuteText, DateTime.secondText,
        if_neg (by rw [subsec]; decide), yearEq, monthEq, dayEq, hourEq, minEq, secEq]
      exact stampText_eq (by omega) (by omega) (by omega) (by omega) (by omega) (by omega)
    rw [text, @unixepoch_stamp machine yearN monthN dayN hourN minN secN n.toInt (by omega) (by omega)
      (by omega) (by omega) (by omega) (by omega) ⟨first, last.le⟩ ?_, Int64.ofInt_toInt]
    rw [← yearEq, ← monthEq, ← dayEq, ← hourEq, ← minEq, ← secEq, counted, hour, minute, second]
    have split : 86400000 * DateTime.dayIn (1000 * n.toInt + unixEpochMs) +
        DateTime.msOfDay (1000 * n.toInt + unixEpochMs) = 1000 * n.toInt + unixEpochMs + 43200000 := by
      rw [DateTime.dayIn, DateTime.msOfDay, Int.tdiv_eq_ediv_of_nonneg (by omega)]
      omega
    have whole : DateTime.msOfDay (1000 * n.toInt + unixEpochMs) % 1000 = 0 := by
      unfold DateTime.msOfDay unixEpochMs
      omega
    omega

theorem unixepoch_datetime_2024 :
    unixepoch stillMachine [.text "2024-01-15 12:34:56".toList] = .ok (.integer 1705322096) :=
  unixepoch_datetime (n := 1705322096) (y := 2024) (by decide +kernel) rfl (by decide)

end Squrust.Sql
