import Squrust.Sql.DateTimeInstants
import Squrust.Sql.DateTimeShapes

/-!
# Real dates and times of day

What `date`, `time` and `datetime` write is a day of the calendar and a time of a day,
unless the time string writes a day that its month does not have, or an hour, a minute or
a second that no day has, and the modifiers keep what was written (`realInstants_iff`). What is
read from a Julian day is always real. A date without modifiers is brought into its month by
`build`, and nothing else is: no text of a time of day is checked when it is read, and a
date is read through the Julian day again only if a modifier asks for it.
-/

set_option autoImplicit false

namespace Squrust.Sql

open Squrust.Foundation Squrust.Foundation.Float64

namespace DateTime

/-! ## What was written, as a Julian day -/

/-- The Julian day of a date and a time of day, in milliseconds. -/
def julianOf (p : DateTime) : Int :=
  dayNumber p.ymd.1 p.ymd.2.1 p.ymd.2.2 * 86400000 - 43200000 +
    if p.validHms then p.h * 3600000 + p.min * 60000 + asI64 (p.s * 1000.0 + 0.5) else 0

/-- The Julian day of a date and a time of day is in range. -/
def InReach (p : DateTime) : Prop :=
  YearCounts p.ymd.1 ∧ 0 ≤ p.julianOf ∧ p.julianOf ≤ maxIjd

theorem dayNumber_bounds {y m d : Int} (years : YearCounts y) (months : 1 ≤ m ∧ m ≤ 12)
    (days : 1 ≤ d ∧ d ≤ 31) : -400 ≤ dayNumber y m d ∧ dayNumber y m d ≤ 5373500 := by
  obtain ⟨first, last⟩ := years
  unfold dayNumber marchDay
  split <;> omega

/-- A date and a time of day that are kept count as their Julian day. -/
theorem computeJd_kept {p : DateTime} (invalid : p.validJd = false) (number : p.rawS = none)
    (years : YearCounts p.ymd.1) (months : 1 ≤ p.ymd.2.1 ∧ p.ymd.2.1 ≤ 12)
    (days : 1 ≤ p.ymd.2.2 ∧ p.ymd.2.2 ≤ 31) (timed : p.validHms = true → Timed p.h p.min p.s) :
    p.computeJd = .ok { p with ijd := p.julianOf, validJd := true } := by
  have free : p.stuck = false := by
    rw [stuck, number]
    simpa [YearCounts] using years
  obtain ⟨least, greatest⟩ := dayNumber_bounds years months days
  unfold computeJd julianOf
  rw [invalid, free, if_neg Bool.false_ne_true, if_neg Bool.false_ne_true,
    daysToMs_eq years months days, Outcome.ok_bind]
  cases held : p.validHms with
  | false =>
      rw [if_neg Bool.false_ne_true, if_neg Bool.false_ne_true, add_zero]
      rfl
  | true =>
      have bounds := timed held
      obtain ⟨hours, minutes, seconds⟩ := bounds
      rw [if_pos rfl, if_pos rfl, timeToMs_sum (timed held), Outcome.ok_bind,
        i64_of_bounds (by omega) (by omega)]
      rfl

/-- What is left when the Julian day was computed. -/
theorem computeJd_made {p q : DateTime} (run : p.computeJd = .ok q) (error : q.error = false) :
    q = { p with ijd := q.ijd, validJd := true } ∧ (p.validJd = false → YearCounts p.ymd.1) := by
  unfold computeJd at run
  cases valid : p.validJd with
  | true =>
      rw [valid, if_pos rfl] at run
      obtain rfl := Except.ok.inj run
      exact ⟨by rw [← valid], nofun⟩
  | false =>
      rw [valid, if_neg Bool.false_ne_true] at run
      cases held : p.stuck with
      | true =>
          rw [held, if_pos rfl] at run
          obtain rfl := Except.ok.inj run
          cases error
      | false =>
          rw [held, if_neg Bool.false_ne_true] at run
          have years : YearCounts p.ymd.1 := by
            rw [stuck, Bool.or_eq_false_iff] at held
            simpa [YearCounts] using held.1
          refine ⟨?_, fun _ => years⟩
          obtain ⟨ijd, _, run⟩ := Outcome.bind_eq_ok.mp run
          split at run
          · obtain ⟨ms, _, run⟩ := Outcome.bind_eq_ok.mp run
            obtain ⟨sum, _, run⟩ := Outcome.bind_eq_ok.mp run
            obtain rfl := Outcome.pure_eq_ok.mp run
            rfl
          · obtain rfl := Outcome.pure_eq_ok.mp run
            rfl

/-! ## The end of `build` -/

/-- A date without modifiers is kept up to the 28th, and all that is in range is kept. -/
theorem finishBuild_of_julian {bare : Bool} {p q : DateTime} (julian : p.computeJd = .ok q) :
    finishBuild bare p = .ok (if q.error = false ∧ 0 ≤ q.ijd ∧ q.ijd ≤ maxIjd then
      some { q with validYmd := q.validYmd && !(bare && decide (28 < q.d)) } else none) := by
  have order : (q.error || !(decide (0 ≤ q.ijd) && decide (q.ijd ≤ maxIjd))) = true ↔
      ¬ (q.error = false ∧ 0 ≤ q.ijd ∧ q.ijd ≤ maxIjd) := by
    rw [Bool.or_eq_true, Bool.not_eq_true', Bool.and_eq_false_iff, decide_eq_false_iff_not,
      decide_eq_false_iff_not, not_and_or, not_and_or, Bool.not_eq_false]
  unfold finishBuild
  rw [julian, Outcome.ok_bind]
  by_cases inRange : q.error = false ∧ 0 ≤ q.ijd ∧ q.ijd ≤ maxIjd
  · rw [if_neg (mt order.mp (not_not_intro inRange)), if_pos inRange]
    cases renewed : bare && q.validYmd && decide (28 < q.d) with
    | true =>
        simp only [Bool.and_eq_true] at renewed
        rw [if_pos rfl, renewed.1.1, renewed.1.2, renewed.2]
        rfl
    | false =>
        have same : (q.validYmd && !(bare && decide (28 < q.d))) = q.validYmd := by
          cases bare <;> cases valid : q.validYmd <;> simp_all
        rw [if_neg Bool.false_ne_true, same]
        rfl
  · rw [if_pos (order.mpr inRange), if_neg inRange]
    rfl

theorem finishBuild_eq_some {bare : Bool} {p r : DateTime} (run : finishBuild bare p = .ok (some r)) :
    ∃ q, p.computeJd = .ok q ∧ q.error = false ∧ (0 ≤ q.ijd ∧ q.ijd ≤ maxIjd) ∧
      r = { q with validYmd := q.validYmd && !(bare && decide (28 < q.d)) } := by
  obtain ⟨q, julian, _⟩ := Outcome.bind_eq_ok.mp run
  rw [finishBuild_of_julian julian] at run
  split at run
  · rename_i inRange
    exact ⟨q, julian, inRange.1, inRange.2, (Option.some.inj (Except.ok.inj run)).symm⟩
  · cases run

/-! ## What is read from a Julian day -/

/-- The milliseconds of a day are a time of a day. -/
theorem realTime_of_ms {dayMs : Int} (low : 0 ≤ dayMs) (high : dayMs < 86400000) :
    RealTime (dayMs / 60000 / 60) (dayMs / 60000 % 60) (Float64.ofInt (dayMs % 60000) / 1000.0) := by
  obtain ⟨sec, named⟩ : ∃ sec, sec = dayMs % 60000 / 1000 := ⟨_, rfl⟩
  have below : ((sec : Int) : ℚ) * 1000 ≤ (dayMs % 60000 : Int) := by
    exact_mod_cast (by omega : sec * 1000 ≤ dayMs % 60000)
  have above : ((dayMs % 60000 : Int) : ℚ) ≤ sec * 1000 + 999 := by
    exact_mod_cast (by omega : dayMs % 60000 ≤ sec * 1000 + 999)
  have number : Between (Float64.ofInt (dayMs % 60000)) (dayMs % 60000 : Int) (dayMs % 60000 : Int) :=
    ⟨_, HasValue.ofInt_exact (by omega), le_rfl, le_rfl⟩
  have few : FewMillis (Float64.ofInt (dayMs % 60000) / 1000.0) sec := by
    refine number.div value_1000 (by norm_num) (.ofInt (by omega)) (.dyadic (by omega) (by decide)) ?_ ?_
    · linarith
    · push_cast
      linarith
  exact ⟨⟨by omega, by omega⟩, ⟨by omega, by omega⟩, sec, by omega, by omega,
    few.shows (by omega) (by omega)⟩

/-- A date is real if the one that is kept is. -/
theorem computeYmd_real {p q : DateTime} (valid : p.validJd = true)
    (inRange : 0 ≤ p.ijd ∧ p.ijd ≤ maxIjd) (date : p.validYmd = true → IsDate p.y p.m p.d)
    (run : p.computeYmd = .ok q) :
    IsDate q.y q.m q.d ∧ q = { p with y := q.y, m := q.m, d := q.d, validYmd := true } := by
  have reach : p.ijd ≤ 464269060800000 := inRange.2
  by_cases dated : p.validYmd = true
  · unfold computeYmd at run
    rw [if_pos dated] at run
    obtain rfl := Except.ok.inj run
    exact ⟨date dated, by rw [← dated]⟩
  · obtain ⟨y, m, d, read, rfl⟩ := computeYmd_fresh valid (Bool.not_eq_true _ ▸ dated) run
    exact ⟨isDate_of_msToDate ⟨by omega, by omega⟩ read (.inr inRange), rfl⟩

/-- A time of day is real if the one that is kept is. -/
theorem computeHms_real {p q : DateTime} (valid : p.validJd = true) (time : p.TimeOk)
    (run : p.computeHms = .ok q) :
    RealTime q.h q.min q.s ∧ (q.y = p.y ∧ q.m = p.m ∧ q.d = p.d) := by
  by_cases timed : p.validHms = true
  · unfold computeHms at run
    rw [if_pos timed] at run
    obtain rfl := Except.ok.inj run
    exact ⟨time timed, rfl, rfl, rfl⟩
  · obtain rfl := computeHms_fresh valid (Bool.not_eq_true _ ▸ timed) run
    exact ⟨realTime_of_ms (Int.emod_nonneg _ (by decide)) (Int.emod_lt_of_pos _ (by decide)),
      rfl, rfl, rfl⟩

/-- What is in range can be read, and what is kept stays. -/
theorem computeYmdHms_of_range {p : DateTime} (valid : p.validJd = true)
    (inRange : 0 ≤ p.ijd ∧ p.ijd ≤ maxIjd) :
    ∃ q, p.computeYmdHms = .ok q ∧ (p.validYmd = true → q.y = p.y ∧ q.m = p.m ∧ q.d = p.d) ∧
      (p.validHms = true → q.h = p.h ∧ q.min = p.min ∧ q.s = p.s) := by
  have reach : p.ijd ≤ 464269060800000 := inRange.2
  obtain ⟨between, dated, kept, julian⟩ : ∃ between, p.computeYmd = .ok between ∧
      (p.validYmd = true → between = p) ∧ between.validJd = true ∧ between.ijd = p.ijd ∧
        between.validHms = p.validHms ∧ between.h = p.h ∧ between.min = p.min ∧ between.s = p.s := by
    unfold computeYmd
    by_cases held : p.validYmd = true
    · rw [if_pos held]
      exact ⟨p, rfl, fun _ => rfl, valid, rfl, rfl, rfl, rfl, rfl⟩
    · obtain ⟨y, m, d, read, _⟩ := @msToDate_ok p.ijd ⟨by omega, by omega⟩ ⟨by omega, by omega⟩
      rw [if_neg held, if_neg (by rw [valid]; decide), read, Outcome.ok_bind]
      exact ⟨_, rfl, fun dated => absurd dated held, valid, rfl, rfl, rfl, rfl, rfl⟩
  obtain ⟨valid', day, timed, hour, minute, second⟩ := julian
  unfold computeYmdHms
  rw [dated, Outcome.ok_bind]
  unfold computeHms
  by_cases held : between.validHms = true
  · rw [if_pos held]
    refine ⟨between, rfl, fun valid => ?_, fun _ => ⟨hour, minute, second⟩⟩
    rw [kept valid]
    exact ⟨rfl, rfl, rfl⟩
  · have julian : between.computeJd = .ok between := if_pos valid'
    rw [if_neg held, julian, Outcome.ok_bind, day, i64_of_bounds (by omega) (by omega)]
    refine ⟨_, rfl, fun valid => ?_, fun timed' => absurd (timed ▸ timed') held⟩
    dsimp only
    rw [kept valid]
    exact ⟨rfl, rfl, rfl⟩

/-! ## Texts -/

/-- The text of a time of day. -/
theorem clock_shape {p : DateTime} {sec : Int} (low : 0 ≤ sec) (shows : Shows p.s sec) :
    ∃ fraction, FractionText fraction ∧
      p.minuteText ++ [':'] ++ p.secondText = timeShape p.h p.min sec fraction := by
  unfold minuteText secondText
  split
  · obtain ⟨least, greatest⟩ := shows.millis
    have whole : (asI64 (1000.0 * p.s + 0.5)).tdiv 1000 = sec := by
      rw [Int.tdiv_eq_ediv_of_nonneg (by omega)]
      omega
    have rest : (asI64 (1000.0 * p.s + 0.5)).tmod 1000 = asI64 (1000.0 * p.s + 0.5) % 1000 :=
      Int.tmod_eq_emod_of_nonneg (by omega)
    refine ⟨'.' :: padZeros 3 ((asI64 (1000.0 * p.s + 0.5)).tmod 1000), .inr ⟨_, ?_, rfl⟩, ?_⟩
    · rw [rest]
      omega
    · dsimp only
      rw [whole]
      simp only [timeShape, List.append_assoc, List.cons_append, List.nil_append]
  · refine ⟨[], .inl rfl, ?_⟩
    rw [shows.whole]
    simp only [timeShape, List.append_nil]

/-- A time of day that was written is written as one of a day exactly if it is one. -/
theorem clock_real_iff {p : DateTime} (written : Written p.h p.min p.s) :
    RealTimeText (p.minuteText ++ [':'] ++ p.secondText) ↔ RealTime p.h p.min p.s := by
  obtain ⟨sec, low, high, shows⟩ := written.seconds.shows
  obtain ⟨fraction, shown, text⟩ := clock_shape low shows
  rw [text, realTimeText_iff written.hours written.minutes ⟨low, high⟩ shown]
  constructor
  · rintro ⟨hours, minutes, seconds⟩
    exact ⟨⟨written.hours.1, hours⟩, ⟨written.minutes.1, minutes⟩, sec, low, seconds, shows⟩
  · rintro ⟨hours, minutes, sec', _, seconds, shows'⟩
    exact ⟨hours.2, minutes.2, shows.whole.symm.trans shows'.whole ▸ seconds⟩

theorem clock_real {p : DateTime} (real : RealTime p.h p.min p.s) :
    RealTimeText (p.minuteText ++ [':'] ++ p.secondText) := by
  obtain ⟨hours, minutes, sec, low, high, shows⟩ := real
  obtain ⟨fraction, shown, text⟩ := clock_shape low shows
  exact ⟨p.h, p.min, sec, fraction, hours, minutes, ⟨low, high⟩, shown, text⟩

end DateTime

/-! ## What is kept although it is not real -/

/-- The time string writes a day that its month does not have, from November of the year -4713
on, and there are modifiers, which all leave a date as it is. -/
def StaleDate (machine : Machine) (first : Value) (modifiers : List Value) : Prop :=
  ∃ p, readFirst machine first = .ok (some p) ∧ p.validYmd = true ∧ ¬ IsDate p.y p.m p.d ∧
    -56545 ≤ 12 * p.y + p.m ∧ modifiers ≠ [] ∧ AllAre Modifier.keepsDate modifiers

/-- The time string writes an hour, a minute or a second that no day has, its Julian day is in
range, and all modifiers leave a time of day as it is. -/
def StaleTime (machine : Machine) (first : Value) (modifiers : List Value) : Prop :=
  ∃ p, readFirst machine first = .ok (some p) ∧ p.validHms = true ∧ ¬ RealTime p.h p.min p.s ∧
    p.InReach ∧ AllAre Modifier.keepsTime modifiers

/-- A day that its month does not have, in a year that counts, is in range. -/
theorem dayNumber_stale {y m d : Int} (written : WrittenDate y m d) (unreal : ¬ IsDate y m d)
    (late : -56545 ≤ 12 * y + m) :
    YearCounts y ∧ 7 ≤ dayNumber y m d ∧ dayNumber y m d ≤ 5373455 := by
  obtain ⟨years, months, days⟩ := written
  have short : daysInMonth y m < d := by
    by_contra within
    exact unreal ⟨months, days.1, Int.not_lt.mp within⟩
  have last : (m = 11 → d = 31) ∧ m ≤ 11 := by
    unfold daysInMonth at short
    split at short
    · split at short <;> omega
    · split at short <;> omega
  refine ⟨⟨by omega, years.2⟩, ?_⟩
  unfold dayNumber marchDay
  by_cases first : y = -4713
  · obtain rfl : m = 11 := by omega
    obtain rfl : d = 31 := last.1 rfl
    rw [first]
    decide
  · have next : -4712 ≤ y := by omega
    split <;> omega

/-- Up to October of the year -4713, no day is in range. -/
theorem dayNumber_early {y m d : Int} (written : WrittenDate y m d) (years : YearCounts y)
    (early : 12 * y + m < -56545) : dayNumber y m d ≤ -24 := by
  obtain ⟨_, months, days⟩ := written
  obtain rfl : y = -4713 := by have := years.1; omega
  unfold dayNumber marchDay
  split <;> omega

theorem build_eq_some {machine : Machine} {first : Value} {modifiers : List Value} {r : DateTime} :
    DateTime.build machine first modifiers = .ok (some r) ↔
      ∃ p q, readFirst machine first = .ok (some p) ∧ applyModifiers modifiers 1 p = .ok (some q) ∧
        finishBuild modifiers.isEmpty q = .ok (some r) := by
  constructor
  · intro run
    obtain ⟨read, first_, run⟩ := Outcome.bind_eq_ok.mp run
    cases read with
    | none => cases run
    | some p =>
      obtain ⟨applied, all, run⟩ := Outcome.bind_eq_ok.mp run
      cases applied with
      | none => cases run
      | some q => exact ⟨p, q, first_, all, run⟩
  · rintro ⟨p, q, first_, all, run⟩
    unfold DateTime.build
    rw [first_, Outcome.ok_bind]
    dsimp only
    rw [all, Outcome.ok_bind]
    exact run

theorem ReadIn.alone_ {p : DateTime} (read : ReadIn p) : p.Alone :=
  ⟨⟨by have := read.julian; omega, by have := read.julian; omega⟩, read.alone⟩

theorem ReadIn.monthOk {p : DateTime} (read : ReadIn p) : p.MonthOk := fun dated =>
  .inl (read.dated dated).1.months

/-- What is kept beside a Julian day is none. -/
theorem ReadIn.invalid {p : DateTime} (read : ReadIn p) (kept : p.validYmd = true ∨ p.validHms = true) :
    p.validJd = false := by
  rw [← Bool.not_eq_true]
  intro valid
  obtain ⟨undated, untimed⟩ := read.alone valid
  rw [undated, untimed] at kept
  simp at kept

/-- The date that stands for what was written is a date that can be written. -/
theorem ReadIn.written {p : DateTime} (read : ReadIn p) : WrittenDate p.ymd.1 p.ymd.2.1 p.ymd.2.2 := by
  unfold DateTime.ymd
  split
  · rename_i dated
    exact (read.dated dated).1
  · exact ⟨by decide, by decide, by decide⟩

/-- The Julian day of a date that was written is that of its day and a few hours. -/
theorem DateTime.HoldsDate.computeJd {p : DateTime} {y m d : Int} (holds : p.HoldsDate y m d)
    (written : WrittenDate y m d) (years : YearCounts y) :
    ∃ ms, -2 ^ 20 ≤ ms ∧ ms ≤ 2 ^ 30 ∧ p.computeJd =
      .ok { p with ijd := dayNumber y m d * 86400000 - 43200000 + ms, validJd := true } := by
  obtain ⟨⟨rfl, rfl, rfl⟩, dated, julian, number, _, timed⟩ := holds
  have date : p.ymd = (p.y, p.m, p.d) := by rw [ymd, if_pos dated]
  have kept := @computeJd_kept p julian number (by rwa [date]) (by rw [date]; exact written.months)
    (by rw [date]; exact written.days) fun held => (timed held).timed
  rw [julianOf, date] at kept
  refine ⟨_, ?_, ?_, kept⟩
  · split
    · rename_i held
      obtain ⟨hours, minutes, seconds⟩ := (timed held).timed
      omega
    · decide
  · split
    · rename_i held
      obtain ⟨hours, minutes, seconds⟩ := (timed held).timed
      omega
    · decide

theorem ReadIn.holdsDate {p : DateTime} (read : ReadIn p) (dated : p.validYmd = true) :
    p.HoldsDate p.y p.m p.d :=
  ⟨⟨rfl, rfl, rfl⟩, dated, read.invalid (.inl dated), (read.dated dated).2, read.error,
    fun timed => (read.timed timed).1⟩

/-- **What `build` leaves.** A date or a time of day that is kept is real, unless it is stale. -/
theorem build_real {machine : Machine} {first : Value} {modifiers : List Value} {r : DateTime}
    (run : DateTime.build machine first modifiers = .ok (some r)) :
    (r.validJd = true ∧ 0 ≤ r.ijd ∧ r.ijd ≤ maxIjd) ∧
      (¬ StaleDate machine first modifiers → r.validYmd = true → IsDate r.y r.m r.d) ∧
      (¬ StaleTime machine first modifiers → r.TimeOk) := by
  obtain ⟨p, q, first_, all, finish⟩ := build_eq_some.mp run
  obtain ⟨read, first_', held⟩ := readFirst_ok machine first
  obtain rfl := Except.ok.inj (first_.symm.trans first_')
  have read := held p rfl
  obtain ⟨alone, date, time⟩ := applyModifiers_spec read.alone_ read.monthOk all
  obtain ⟨made, julian, error, inRange, rfl⟩ := DateTime.finishBuild_eq_some finish
  obtain ⟨same, years⟩ := DateTime.computeJd_made julian error
  obtain ⟨ijd, rfl⟩ : ∃ ijd, made = { q with ijd, validJd := true } := ⟨made.ijd, same⟩
  refine ⟨⟨rfl, inRange⟩, fun fresh valid => ?_, fun fresh valid => ?_⟩
  · rw [Bool.and_eq_true, Bool.not_eq_true', Bool.and_eq_false_iff, decide_eq_false_iff_not] at valid
    obtain ⟨dated, kept⟩ := valid
    dsimp only at dated kept ⊢
    have invalid : q.validJd = false := by
      rw [← Bool.not_eq_true]
      intro valid
      have undated := (alone.alone valid).1
      rw [dated] at undated
      cases undated
    have counts : YearCounts q.y := by
      have counted := years invalid
      rwa [DateTime.ymd, if_pos dated] at counted
    by_contra unreal
    have notOk : ¬ q.DateOk := fun ok => (ok dated).elim unreal (not_not_intro counts)
    obtain ⟨keeps, stale⟩ := not_or.mp (mt date notOk)
    rw [not_not] at keeps
    obtain ⟨dated', other⟩ := Classical.not_imp.mp stale
    obtain ⟨unreal', _⟩ := not_or.mp other
    have written := (read.dated dated').1
    obtain ⟨q', all', holds⟩ := applyModifiers_keepsDate keeps (read.holdsDate dated')
    obtain rfl := Option.some.inj (Except.ok.inj (all.symm.trans all'))
    obtain ⟨year, month, day⟩ := holds.date
    by_cases bare : modifiers = []
    · subst bare
      have early : ¬ 28 < q.d := kept.resolve_left (by decide)
      exact unreal (isDate_early (month ▸ written.months) (day ▸ written.days.1) (by omega))
    · refine fresh ⟨p, first_, dated', unreal', ?_, bare, keeps⟩
      by_contra early
      obtain ⟨ms, _, few, computed⟩ := holds.computeJd written (year ▸ counts)
      have before := dayNumber_early written (year ▸ counts) (Int.not_le.mp early)
      obtain ⟨rfl⟩ : ijd = _ := congrArg DateTime.ijd (Except.ok.inj (julian.symm.trans computed))
      have first := inRange.1
      dsimp only at first
      omega
  · by_contra unreal
    obtain ⟨keeps, stale⟩ := not_or.mp (mt time fun ok => unreal (ok valid))
    rw [not_not] at keeps
    obtain ⟨timed, unreal'⟩ := Classical.not_imp.mp stale
    obtain ⟨useSubsec, all'⟩ := @applyModifiers_keepsTime modifiers 1 p keeps
    obtain rfl := Option.some.inj (Except.ok.inj (all.symm.trans all'))
    have written := read.written
    have number : p.rawS = none := (read.timed timed).2
    have invalid := read.invalid (.inr timed)
    have counts : YearCounts p.ymd.1 := years invalid
    have kept := @DateTime.computeJd_kept { p with useSubsec } invalid number counts written.months
      written.days fun held => (read.timed held).1.timed
    obtain ⟨rfl⟩ : ijd = _ := congrArg DateTime.ijd (Except.ok.inj (julian.symm.trans kept))
    exact fresh ⟨p, first_, timed, unreal', ⟨counts, inRange⟩, keeps⟩

theorem build_staleDate {machine : Machine} {first : Value} {modifiers : List Value}
    (stale : StaleDate machine first modifiers) :
    ∃ r, DateTime.build machine first modifiers = .ok (some r) ∧
      (r.validJd = true ∧ 0 ≤ r.ijd ∧ r.ijd ≤ maxIjd) ∧ r.validYmd = true ∧
      WrittenDate r.y r.m r.d ∧ ¬ IsDate r.y r.m r.d := by
  obtain ⟨p, first_, dated, unreal, late, some_, keeps⟩ := stale
  obtain ⟨read, first_', held⟩ := readFirst_ok machine first
  obtain rfl := Except.ok.inj (first_.symm.trans first_')
  have read := held p rfl
  have written := (read.dated dated).1
  obtain ⟨years, least, greatest⟩ := dayNumber_stale written unreal late
  obtain ⟨q, all, holds⟩ := applyModifiers_keepsDate keeps (read.holdsDate dated)
  obtain ⟨ms, low, high, julian⟩ := holds.computeJd written years
  have inRange : 0 ≤ dayNumber p.y p.m p.d * 86400000 - 43200000 + ms ∧
      dayNumber p.y p.m p.d * 86400000 - 43200000 + ms ≤ maxIjd := by
    unfold maxIjd
    omega
  have finish := @DateTime.finishBuild_of_julian modifiers.isEmpty _ _ julian
  rw [if_pos ⟨holds.error, inRange⟩] at finish
  obtain ⟨year, month, day⟩ := holds.date
  refine ⟨_, build_eq_some.mpr ⟨p, q, first_, all, finish⟩, ⟨rfl, inRange⟩, ?_, ?_⟩
  · dsimp only
    rw [holds.dated, List.isEmpty_eq_false_iff.mpr some_]
    rfl
  · dsimp only
    rw [year, month, day]
    exact ⟨written, unreal⟩

theorem build_staleTime {machine : Machine} {first : Value} {modifiers : List Value}
    (stale : StaleTime machine first modifiers) :
    ∃ r, DateTime.build machine first modifiers = .ok (some r) ∧
      (r.validJd = true ∧ 0 ≤ r.ijd ∧ r.ijd ≤ maxIjd) ∧ r.validHms = true ∧
      Written r.h r.min r.s ∧ ¬ RealTime r.h r.min r.s := by
  obtain ⟨p, first_, timed, unreal, ⟨years, inRange⟩, keeps⟩ := stale
  obtain ⟨read, first_', held⟩ := readFirst_ok machine first
  obtain rfl := Except.ok.inj (first_.symm.trans first_')
  have read := held p rfl
  have written := read.written
  have number : p.rawS = none := (read.timed timed).2
  obtain ⟨useSubsec, all⟩ := @applyModifiers_keepsTime modifiers 1 p keeps
  have julian := @DateTime.computeJd_kept { p with useSubsec } (read.invalid (.inr timed)) number years
    written.months written.days fun held => (read.timed held).1.timed
  have finish := @DateTime.finishBuild_of_julian modifiers.isEmpty _ _ julian
  rw [if_pos ⟨read.error, inRange⟩] at finish
  exact ⟨_, build_eq_some.mpr ⟨p, _, first_, all, finish⟩, ⟨rfl, inRange⟩, timed,
    (read.timed timed).1, unreal⟩

/-! ## The functions -/

/-- A result is a text of a shape, or there is none. -/
def NullOr (shape : Text → Prop) (result : Outcome Empty Value) : Prop :=
  ∀ v, result = .ok v → v ≠ .null → ∃ text, v = .text text ∧ shape text

section Functions

variable {machine : Machine} {first : Value} {modifiers : List Value}

theorem onMoment_eq_ok {make : DateTime → Outcome Empty Value} {v : Value}
    (run : onMoment machine (first :: modifiers) make = .ok v) (some_ : v ≠ .null) :
    ∃ r, DateTime.build machine first modifiers = .ok (some r) ∧ make r = .ok v := by
  obtain ⟨built, build, made⟩ := Outcome.bind_eq_ok.mp run
  cases built with
  | none => exact absurd (Except.ok.inj made).symm some_
  | some r => exact ⟨r, build, made⟩

theorem onMoment_of_build {make : DateTime → Outcome Empty Value} {r : DateTime}
    (build : DateTime.build machine first modifiers = .ok (some r)) :
    onMoment machine (first :: modifiers) make = make r := by
  rw [onMoment, moment, build, Outcome.ok_bind]

theorem NullOr.of_text {shape : Text → Prop} {result : Outcome Empty Value} {text : Text}
    (all : NullOr shape result) (run : result = .ok (.text text)) : shape text := by
  obtain ⟨_, same, held⟩ := all _ run nofun
  obtain rfl := Value.text.inj same
  exact held

/-- `date` writes a day of the calendar unless a date is stale. -/
theorem date_real : NullOr RealDateText (date machine (first :: modifiers)) ↔
    ¬ StaleDate machine first modifiers := by
  constructor
  · intro all stale
    obtain ⟨r, build, _, dated, written, unreal⟩ := build_staleDate stale
    have kept : r.computeYmd = .ok r := if_pos dated
    have run : date machine (first :: modifiers) = .ok (.text r.dateText) := by
      rw [date, onMoment_of_build build, kept]
      rfl
    have real := all.of_text run
    obtain ⟨_, months, days⟩ := written
    exact unreal ((realDateText_iff (by omega) (by omega)).mp real)
  · intro fresh v run some_
    obtain ⟨r, build, made⟩ := onMoment_eq_ok run some_
    obtain ⟨⟨valid, inRange⟩, date, _⟩ := build_real build
    obtain ⟨s, computed, made⟩ := Outcome.bind_eq_ok.mp made
    obtain rfl := Outcome.pure_eq_ok.mp made
    exact ⟨_, rfl, s.y, s.m, s.d, (DateTime.computeYmd_real valid inRange (date fresh) computed).1, rfl⟩

/-- `time` writes a time of a day unless a time of day is stale. -/
theorem time_real : NullOr RealTimeText (time machine (first :: modifiers)) ↔
    ¬ StaleTime machine first modifiers := by
  constructor
  · intro all stale
    obtain ⟨r, build, _, timed, written, unreal⟩ := build_staleTime stale
    have kept : r.computeHms = .ok r := if_pos timed
    have run : time machine (first :: modifiers) =
        .ok (.text (r.minuteText ++ [':'] ++ r.secondText)) := by
      rw [time, onMoment_of_build build, kept]
      rfl
    exact unreal ((DateTime.clock_real_iff written).mp (all.of_text run))
  · intro fresh v run some_
    obtain ⟨r, build, made⟩ := onMoment_eq_ok run some_
    obtain ⟨⟨valid, _⟩, _, time⟩ := build_real build
    obtain ⟨s, computed, made⟩ := Outcome.bind_eq_ok.mp made
    obtain rfl := Outcome.pure_eq_ok.mp made
    exact ⟨_, rfl, DateTime.clock_real (DateTime.computeHms_real valid (time fresh) computed).1⟩

/-- What `datetime` writes, of date and time of day that are in range. -/
theorem datetime_of_build {r : DateTime} (build : DateTime.build machine first modifiers = .ok (some r))
    (valid : r.validJd = true) (inRange : 0 ≤ r.ijd ∧ r.ijd ≤ maxIjd) :
    ∃ q : DateTime, datetime machine (first :: modifiers) =
        .ok (.text (q.dateText ++ [' '] ++ (q.minuteText ++ [':'] ++ q.secondText))) ∧
      (r.validYmd = true → q.y = r.y ∧ q.m = r.m ∧ q.d = r.d) ∧
      (r.validHms = true → q.h = r.h ∧ q.min = r.min ∧ q.s = r.s) := by
  obtain ⟨q, computed, kept, kept'⟩ := DateTime.computeYmdHms_of_range valid inRange
  refine ⟨q, ?_, kept, kept'⟩
  rw [datetime, onMoment_of_build build, computed, Outcome.ok_bind]
  simp only [List.append_assoc]
  rfl

/-- `datetime` writes a time of a day of the calendar unless one of them is stale. -/
theorem datetime_real : NullOr RealStampText (datetime machine (first :: modifiers)) ↔
    ¬ StaleDate machine first modifiers ∧ ¬ StaleTime machine first modifiers := by
  constructor
  · intro all
    constructor
    · intro stale
      obtain ⟨r, build, ⟨valid, inRange⟩, dated, ⟨_, months, days⟩, unreal⟩ := build_staleDate stale
      obtain ⟨q, run, kept, _⟩ := datetime_of_build build valid inRange
      obtain ⟨year, month, day⟩ := kept dated
      have real := (realStampText_iff.mp (all.of_text run)).1
      rw [← year, ← month, ← day] at unreal
      exact unreal ((realDateText_iff (by omega) (by omega)).mp real)
    · intro stale
      obtain ⟨r, build, ⟨valid, inRange⟩, timed, written, unreal⟩ := build_staleTime stale
      obtain ⟨q, run, _, kept⟩ := datetime_of_build build valid inRange
      obtain ⟨hour, minute, second⟩ := kept timed
      have real := (realStampText_iff.mp (all.of_text run)).2
      rw [← hour, ← minute, ← second] at written unreal
      exact unreal ((DateTime.clock_real_iff written).mp real)
  · rintro ⟨freshDate, freshTime⟩ v run some_
    obtain ⟨r, build, made⟩ := onMoment_eq_ok run some_
    obtain ⟨⟨valid, inRange⟩, date, time⟩ := build_real build
    obtain ⟨q, computed, made⟩ := Outcome.bind_eq_ok.mp made
    obtain rfl := Outcome.pure_eq_ok.mp made
    obtain ⟨between, dated, timed⟩ := Outcome.bind_eq_ok.mp computed
    obtain ⟨real, same⟩ := DateTime.computeYmd_real valid inRange (date freshDate) dated
    obtain ⟨y, m, d, rfl⟩ : ∃ y m d, between = { r with y, m, d, validYmd := true } := ⟨_, _, _, same⟩
    have time' : DateTime.TimeOk { r with y, m, d, validYmd := true } := time freshTime
    obtain ⟨real', year, month, day⟩ := DateTime.computeHms_real (by exact valid) time' timed
    refine ⟨_, rfl, q.dateText, q.minuteText ++ [':'] ++ q.secondText, ⟨q.y, q.m, q.d, ?_, rfl⟩,
      DateTime.clock_real real', ?_⟩
    · rw [year, month, day]
      exact real
    · simp only [List.append_assoc]

end Functions

/-- **Real instants.** Every result of `date`, of `time` and of `datetime` is a day of the
calendar and a time of a day exactly if no date that is written with it is stale and no
time of day is. -/
theorem realInstants_iff (machine : Machine) (first : Value) (modifiers : List Value) :
    (NullOr RealDateText (date machine (first :: modifiers)) ↔
      ¬ StaleDate machine first modifiers) ∧
    (NullOr RealTimeText (time machine (first :: modifiers)) ↔
      ¬ StaleTime machine first modifiers) ∧
    (NullOr RealStampText (datetime machine (first :: modifiers)) ↔
      ¬ StaleDate machine first modifiers ∧ ¬ StaleTime machine first modifiers) :=
  ⟨date_real, time_real, datetime_real⟩

/-- A time of day is not checked when it is read. -/
theorem realInstants_fails :
    ¬ (∀ (machine : Machine) (first : Value) (modifiers : List Value),
      NullOr RealDateText (date machine (first :: modifiers)) ∧
      NullOr RealTimeText (time machine (first :: modifiers)) ∧
      NullOr RealStampText (datetime machine (first :: modifiers))) := by
  intro all
  have run : time stillMachine [.text "25:61:61".toList] = .ok (.text "25:61:61".toList) := by
    decide +kernel
  have real : RealTimeText (timeShape 25 61 61 []) :=
    (all stillMachine (.text "25:61:61".toList) []).2.1.of_text run
  exact absurd ((realTimeText_iff (by decide) (by decide) (by decide) (.inl rfl)).mp real) (by decide)

end Squrust.Sql
