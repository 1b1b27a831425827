import Squrust.Sql.DateTimeReads

/-!
# What is kept by modifiers

Modifiers change a date and time of day one after the other. Most of them go through the
Julian day and leave nothing else (`clearDerived`), so that date and time of day are read from
it in the end and are real ones. Some leave a date, or a time of day, as it was
written (`Modifier.keepsDate`, `Modifier.keepsTime`), and a time string may write a day that its
month does not have, or an hour that no day has.
-/

set_option autoImplicit false

namespace Squrust.Sql

open Squrust.Foundation Squrust.Foundation.Float64

/-- The years that a Julian day is computed for. -/
def YearCounts (y : Int) : Prop := -4713 ≤ y ∧ y ≤ 9999

/-- A time of a day. -/
structure RealTime (h min : Int) (s : Float64) : Prop where
  hours : 0 ≤ h ∧ h ≤ 23
  minutes : 0 ≤ min ∧ min ≤ 59
  seconds : ∃ sec, 0 ≤ sec ∧ sec ≤ 59 ∧ Shows s sec

/-- Modifiers that leave a date as it is. -/
def Modifier.keepsDate : Modifier → Bool
  | .same | .subsec => true
  | .startOf unit => unit = "day".toList
  | _ => false

/-- Modifiers that leave a time of day as it is. -/
def Modifier.keepsTime : Modifier → Bool
  | .same | .subsec => true
  | _ => false

namespace DateTime

/-- The Julian day is an `i64`, and nothing else is kept beside it. -/
structure Alone (p : DateTime) : Prop where
  julian : Fits p.ijd
  alone : p.validJd = true → p.validYmd = false ∧ p.validHms = false

/-- The month of the date that is kept is a month, or the year does not count. -/
def MonthOk (p : DateTime) : Prop :=
  p.validYmd = true → (1 ≤ p.m ∧ p.m ≤ 12) ∨ ¬ YearCounts p.y

/-- The date that is kept is a day of the calendar, or its year does not count. -/
def DateOk (p : DateTime) : Prop := p.validYmd = true → IsDate p.y p.m p.d ∨ ¬ YearCounts p.y

/-- The time of day that is kept is a time of a day. -/
def TimeOk (p : DateTime) : Prop := p.validHms = true → RealTime p.h p.min p.s

theorem DateOk.monthOk {p : DateTime} (date : p.DateOk) : p.MonthOk := fun dated =>
  (date dated).imp IsDate.month id

/-- Nothing but the Julian day is kept. -/
def Cleared (p : DateTime) : Prop := Fits p.ijd ∧ p.validYmd = false ∧ p.validHms = false

theorem Cleared.alone {p : DateTime} (cleared : p.Cleared) : p.Alone := ⟨cleared.1, fun _ => cleared.2⟩

theorem Cleared.dateOk {p : DateTime} (cleared : p.Cleared) : p.DateOk := fun dated =>
  absurd dated (by rw [cleared.2.1]; decide)

theorem Cleared.timeOk {p : DateTime} (cleared : p.Cleared) : p.TimeOk := fun timed =>
  absurd timed (by rw [cleared.2.2]; decide)

theorem fits_asI64 (x : Float64) : Fits (asI64 x) := ⟨x.toInt64.le_toInt, x.toInt64.toInt_lt⟩

/-! ## One modifier -/

/-- What is read from the Julian day is a date, or its year does not count. -/
theorem computeYmd_date {p q : DateTime} (fits : Fits p.ijd) (run : p.computeYmd = .ok q) :
    ∃ y m d, q = { p with y, m, d, validYmd := true } ∧
      (p.validYmd = true → y = p.y ∧ m = p.m ∧ d = p.d) ∧
      (p.validYmd = false → IsDate y m d ∨ ¬ YearCounts y) := by
  cases dated : p.validYmd with
  | true =>
      refine ⟨p.y, p.m, p.d, ?_, fun _ => ⟨rfl, rfl, rfl⟩, nofun⟩
      unfold computeYmd at run
      rw [if_pos dated] at run
      obtain rfl := Except.ok.inj run
      rw [← dated]
  | false =>
      by_cases valid : p.validJd = true
      · obtain ⟨y, m, d, read, rfl⟩ := computeYmd_fresh valid dated run
        refine ⟨y, m, d, rfl, nofun, fun _ => ?_⟩
        by_cases counts : YearCounts y
        · exact .inl (isDate_of_msToDate fits read (.inl counts))
        · exact .inr counts
      · unfold computeYmd at run
        rw [if_neg (by rw [dated]; decide), if_pos (by simp [valid])] at run
        obtain rfl := Except.ok.inj run
        exact ⟨2000, 1, 1, rfl, nofun, fun _ => .inl (by decide)⟩

theorem cleared_addMs {p q : DateTime} {delta : Int} (run : p.addMs delta = .ok q) : q.Cleared := by
  obtain ⟨_, _, run⟩ := Outcome.bind_eq_ok.mp run
  obtain ⟨_, sum, made⟩ := Outcome.bind_eq_ok.mp run
  obtain rfl := Outcome.pure_eq_ok.mp made
  exact ⟨(i64_eq_ok.mp sum).2 ▸ (i64_eq_ok.mp sum).1, rfl, rfl⟩

theorem cleared_toWeekday {p q : DateTime} {n : Int} (run : p.toWeekday n = .ok q) : q.Cleared := by
  simp only [toWeekday, Outcome.bind_eq_ok, Outcome.pure_eq_ok] at run
  obtain ⟨_, _, _, _, _, _, _, _, _, _, _, _, _, sum, rfl⟩ := run
  exact ⟨(i64_eq_ok.mp sum).2 ▸ (i64_eq_ok.mp sum).1, rfl, rfl⟩

theorem realTime_midnight : RealTime 0 0 0.0 :=
  ⟨by decide, by decide, 0, by decide, by decide,
    FewMillis.shows ⟨0, hasValue_zero, by norm_num, by norm_num⟩ (by decide) (by decide)⟩

/-- The beginning of a day, a month or a year. -/
theorem toStart_spec {p q : DateTime} {unit : Text} (alone : p.Alone) (month : p.MonthOk)
    (run : p.toStart unit = .ok (some q)) :
    q.Alone ∧ q.MonthOk ∧ q.TimeOk ∧ (unit ≠ "day".toList → q.DateOk) ∧ (p.DateOk → q.DateOk) ∧
      (unit = "day".toList → p.validYmd = true → q.validYmd = true ∧ q.y = p.y ∧ q.m = p.m ∧ q.d = p.d ∧
        q.validJd = false ∧ q.error = p.error ∧ q.rawS = none) := by
  unfold toStart at run
  split at run
  · cases run
  · obtain ⟨dated, compute, run⟩ := Outcome.bind_eq_ok.mp run
    obtain ⟨y, m, d, rfl, same, fresh⟩ := computeYmd_date alone.julian compute
    have months : (1 ≤ m ∧ m ≤ 12) ∨ ¬ YearCounts y := by
      cases held : p.validYmd with
      | true =>
          obtain ⟨rfl, rfl, rfl⟩ := same held
          exact month held
      | false => exact (fresh held).imp IsDate.month id
    have date : p.DateOk → IsDate y m d ∨ ¬ YearCounts y := by
      intro held
      cases valid : p.validYmd with
      | true =>
          obtain ⟨rfl, rfl, rfl⟩ := same valid
          exact held valid
      | false => exact fresh valid
    have alone' (q : DateTime) (invalid : q.validJd = false) (fits : Fits q.ijd) : q.Alone :=
      ⟨fits, fun valid => absurd valid (by rw [invalid]; decide)⟩
    dsimp only at run
    split at run
    · rename_i isMonth
      obtain rfl := Option.some.inj (Outcome.pure_eq_ok.mp run)
      exact ⟨alone' _ rfl alone.julian, fun _ => months, fun _ => realTime_midnight,
        fun _ _ => months.imp isDate_first id, fun _ _ => months.imp isDate_first id,
        fun isDay => absurd (isMonth.symm.trans isDay) (by decide)⟩
    · split at run
      · rename_i isYear
        obtain rfl := Option.some.inj (Outcome.pure_eq_ok.mp run)
        have first : IsDate y 1 1 := isDate_first (by decide)
        exact ⟨alone' _ rfl alone.julian, fun _ => .inl first.month, fun _ => realTime_midnight,
          fun _ _ => .inl first, fun _ _ => .inl first,
          fun isDay => absurd (isYear.symm.trans isDay) (by decide)⟩
      · split at run
        · rename_i isDay
          obtain rfl := Option.some.inj (Outcome.pure_eq_ok.mp run)
          refine ⟨alone' _ rfl alone.julian, fun _ => months, fun _ => realTime_midnight,
            fun notDay => absurd isDay notDay, fun held _ => date held, fun _ valid => ?_⟩
          obtain ⟨rfl, rfl, rfl⟩ := same valid
          exact ⟨rfl, rfl, rfl, rfl, rfl, rfl, rfl⟩
        · cases run

/-- **What a modifier leaves.** A date that it does not leave alone is one of the calendar, and a
time of day that it does not leave alone is one of a day. -/
theorem applyModifier_spec {p q : DateTime} {idx : Nat} {modifier : Modifier} (alone : p.Alone)
    (month : p.MonthOk) (run : p.applyModifier idx modifier = .ok (some q)) :
    q.Alone ∧ q.MonthOk ∧ (modifier.keepsDate = false ∨ p.DateOk → q.DateOk) ∧
      (modifier.keepsTime = false ∨ p.TimeOk → q.TimeOk) := by
  have of_cleared : q.Cleared → q.Alone ∧ q.MonthOk ∧ (modifier.keepsDate = false ∨ p.DateOk → q.DateOk) ∧
      (modifier.keepsTime = false ∨ p.TimeOk → q.TimeOk) := fun cleared =>
    ⟨cleared.alone, cleared.dateOk.monthOk, fun _ => cleared.dateOk, fun _ => cleared.timeOk⟩
  cases modifier with
  | julianday =>
      obtain run := Except.ok.inj run
      split at run
      · cases run
      · split at run
        · rename_i held
          rw [Bool.and_eq_true] at held
          obtain rfl := Option.some.inj run
          exact of_cleared ⟨alone.julian, alone.alone held.1⟩
        · cases run
  | unixepoch =>
      obtain run := Except.ok.inj run
      split at run
      · cases run
      · obtain ⟨v, _, run⟩ := Option.bind_eq_some_iff.mp run
        split at run
        · obtain rfl := Option.some.inj run
          exact of_cleared ⟨fits_asI64 _, rfl, rfl⟩
        · cases run
  | same =>
      obtain rfl := Option.some.inj (Except.ok.inj run)
      exact ⟨alone, month, fun held => held.resolve_left (by decide),
        fun held => held.resolve_left (by decide)⟩
  | subsec =>
      obtain rfl := Option.some.inj (Except.ok.inj run)
      exact ⟨⟨alone.julian, alone.alone⟩, month, fun held => held.resolve_left (by decide),
        fun held => held.resolve_left (by decide)⟩
  | weekday n =>
      obtain ⟨_, moved, made⟩ := Outcome.map_eq_ok.mp run
      obtain rfl := Option.some.inj made
      exact of_cleared (cleared_toWeekday moved)
  | startOf unit =>
      obtain ⟨alone', month', time, date, kept, _⟩ := toStart_spec alone month run
      refine ⟨alone', month', fun held => ?_, fun _ => time⟩
      rcases held with other | held
      · exact date (by simpa [Modifier.keepsDate] using other)
      · exact kept held
  | offset delta =>
      obtain ⟨_, moved, made⟩ := Outcome.map_eq_ok.mp run
      obtain rfl := Option.some.inj made
      exact of_cleared (cleared_addMs moved)
  | units idx' r rxform =>
      obtain ⟨_, _, run⟩ := Outcome.bind_eq_ok.mp run
      obtain ⟨_, moved, made⟩ := Outcome.bind_eq_ok.mp run
      obtain rfl := Option.some.inj (Outcome.pure_eq_ok.mp made)
      exact of_cleared (cleared_addMs moved)

end DateTime

/-! ## All modifiers -/

/-- What a modifier is read as. -/
def Means (m : Value) (modifier : Modifier) : Prop := readModifier m.toDisplayString = .ok (some modifier)

/-- All modifiers are read as ones of a kind. -/
def AllAre (kind : Modifier → Bool) (modifiers : List Value) : Prop :=
  ∀ m ∈ modifiers, ∃ modifier, Means m modifier ∧ kind modifier = true

theorem allAre_cons {kind : Modifier → Bool} {m : Value} {modifier : Modifier} {rest : List Value}
    (means : Means m modifier) :
    AllAre kind (m :: rest) ↔ kind modifier = true ∧ AllAre kind rest := by
  rw [AllAre, List.forall_mem_cons]
  refine and_congr_left fun _ => ⟨?_, fun held => ⟨modifier, means, held⟩⟩
  rintro ⟨other, means', held⟩
  rwa [Option.some.inj (Except.ok.inj (means.symm.trans means'))]

/-- A blank text is not read. -/
theorem not_means_null (modifier : Modifier) : ¬ Means .null modifier := by
  have blank : readModifier (Value.toDisplayString .null) = Outcome.panic "index out of bounds" := rfl
  rw [Means, blank]
  exact nofun

theorem applyModifiers_cons {m : Value} {modifier : Modifier} {idx : Nat} {p q : DateTime}
    (means : Means m modifier) (applied : p.applyModifier idx modifier = .ok (some q))
    (rest : List Value) : applyModifiers (m :: rest) idx p = applyModifiers rest (idx + 1) q := by
  have some_ : m ≠ .null := by
    rintro rfl
    exact not_means_null modifier means
  rw [applyModifiers, parseModifier, means, Outcome.ok_bind]
  · dsimp only
    rw [applied]
    rfl
  · exact some_

/-- The first modifier was read and applied. -/
theorem applyModifiers_cons_eq_some {m : Value} {rest : List Value} {idx : Nat} {p q : DateTime}
    (run : applyModifiers (m :: rest) idx p = .ok (some q)) :
    ∃ modifier between, Means m modifier ∧ p.applyModifier idx modifier = .ok (some between) ∧
      applyModifiers rest (idx + 1) between = .ok (some q) := by
  by_cases none_ : m = .null
  · subst none_
    cases run
  · rw [applyModifiers] at run
    · obtain ⟨made, first, run⟩ := Outcome.bind_eq_ok.mp run
      obtain ⟨read, means, applied⟩ := Outcome.bind_eq_ok.mp first
      cases made with
      | none => cases run
      | some between =>
          cases read with
          | none => cases applied
          | some modifier => exact ⟨modifier, between, means, applied, run⟩
    · exact none_

/-- **What all modifiers leave.** -/
theorem applyModifiers_spec {modifiers : List Value} {idx : Nat} {p q : DateTime} (alone : p.Alone)
    (month : p.MonthOk) (run : applyModifiers modifiers idx p = .ok (some q)) :
    q.Alone ∧ (¬ AllAre Modifier.keepsDate modifiers ∨ p.DateOk → q.DateOk) ∧
      (¬ AllAre Modifier.keepsTime modifiers ∨ p.TimeOk → q.TimeOk) := by
  induction modifiers generalizing idx p with
  | nil =>
      obtain rfl := Option.some.inj (Except.ok.inj run)
      exact ⟨alone, fun held => held.resolve_left fun other => other nofun,
        fun held => held.resolve_left fun other => other nofun⟩
  | cons m rest ih =>
      obtain ⟨modifier, between, means, applied, run⟩ := applyModifiers_cons_eq_some run
      obtain ⟨alone', month', date, time⟩ := DateTime.applyModifier_spec alone month applied
      obtain ⟨alone'', date', time'⟩ := ih alone' month' run
      rw [allAre_cons means, allAre_cons means, not_and_or, not_and_or, Bool.not_eq_true,
        Bool.not_eq_true]
      refine ⟨alone'', fun held => date' ?_, fun held => time' ?_⟩
      · rcases held with (here | later) | kept
        · exact .inr (date (.inl here))
        · exact .inl later
        · exact .inr (date (.inr kept))
      · rcases held with (here | later) | kept
        · exact .inr (time (.inl here))
        · exact .inl later
        · exact .inr (time (.inr kept))

/-- Modifiers that leave a time of day leave everything but whether milliseconds are shown. -/
theorem applyModifiers_keepsTime {modifiers : List Value} {idx : Nat} {p : DateTime}
    (keeps : AllAre Modifier.keepsTime modifiers) :
    ∃ useSubsec, applyModifiers modifiers idx p = .ok (some { p with useSubsec }) := by
  induction modifiers generalizing idx p with
  | nil => exact ⟨p.useSubsec, rfl⟩
  | cons m rest ih =>
      obtain ⟨⟨modifier, means, held⟩, later⟩ := List.forall_mem_cons.mp keeps
      cases modifier with
      | same =>
          obtain ⟨useSubsec, run⟩ := @ih (idx + 1) p later
          exact ⟨useSubsec, (applyModifiers_cons means rfl rest).trans run⟩
      | subsec =>
          obtain ⟨useSubsec, run⟩ := @ih (idx + 1) { p with useSubsec := true } later
          exact ⟨useSubsec, (applyModifiers_cons means rfl rest).trans run⟩
      | julianday | unixepoch | weekday | startOf | offset | units =>
          exact absurd held (by simp [Modifier.keepsTime])

/-- A date that was written, with a time of day or without. -/
structure DateTime.HoldsDate (p : DateTime) (y m d : Int) : Prop where
  date : p.y = y ∧ p.m = m ∧ p.d = d
  dated : p.validYmd = true
  julian : p.validJd = false
  number : p.rawS = none
  error : p.error = false
  timed : p.validHms = true → Written p.h p.min p.s

theorem toStart_day {p : DateTime} (dated : p.validYmd = true) :
    p.toStart "day".toList = .ok (some { p with
      validHms := true, h := 0, min := 0, s := 0.0, rawS := none, validJd := false }) := by
  have day : p.computeYmd = .ok p := if_pos dated
  unfold DateTime.toStart
  rw [if_neg (by simp [dated]), day, Outcome.ok_bind]
  rfl

theorem written_midnight : Written 0 0 0.0 := ⟨by decide, by decide, fewSeconds_zero⟩

/-- Modifiers that leave a date as it is leave it beside the Julian day. -/
theorem applyModifiers_keepsDate {modifiers : List Value} {idx : Nat} {p : DateTime} {y m d : Int}
    (keeps : AllAre Modifier.keepsDate modifiers) (holds : p.HoldsDate y m d) :
    ∃ q, applyModifiers modifiers idx p = .ok (some q) ∧ q.HoldsDate y m d := by
  induction modifiers generalizing idx p with
  | nil => exact ⟨p, rfl, holds⟩
  | cons first rest ih =>
      obtain ⟨⟨modifier, means, held⟩, later⟩ := List.forall_mem_cons.mp keeps
      have step {q : DateTime} (applied : p.applyModifier idx modifier = .ok (some q))
          (holds' : q.HoldsDate y m d) :
          ∃ q, applyModifiers (first :: rest) idx p = .ok (some q) ∧ q.HoldsDate y m d := by
        obtain ⟨r, run, holds''⟩ := @ih (idx + 1) q later holds'
        exact ⟨r, (applyModifiers_cons means applied rest).trans run, holds''⟩
      obtain ⟨date, dated, julian, number, error, timed⟩ := holds
      cases modifier with
      | same => exact step rfl ⟨date, dated, julian, number, error, timed⟩
      | subsec => exact step rfl ⟨date, dated, julian, number, error, timed⟩
      | startOf unit =>
          obtain rfl : unit = "day".toList := by simpa [Modifier.keepsDate] using held
          exact step (toStart_day dated) ⟨date, dated, rfl, rfl, error, fun _ => written_midnight⟩
      | julianday | unixepoch | weekday | offset | units =>
          exact absurd held (by simp [Modifier.keepsDate])

end Squrust.Sql
