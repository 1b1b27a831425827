import Squrust.Sql.DateTimeInstants
import Squrust.Sql.DateTimeModifiers

/-!
# Applying modifiers

What a modifier does to a date and time is sums with the Julian day, which overflow, and sums
with the date, which do not: the months and years to add are few, and the date of a Julian day
that is far away is not turned back (`addMonths_ok`, `addYears_ok`). A modifier panics exactly
if the sums with the Julian day find no room (`applyModifier_iff`), and leaves a date and
time as it was kept (`Sound.applyModifier`).
-/

set_option autoImplicit false

namespace Squrust.Sql

open Squrust.Foundation Squrust.Foundation.Float64

namespace DateTime

/-! ## Room -/

/-- The days to the day of the week `n`. -/
def daysToWeekday (ijd n : Int) : Int :=
  let zw := ((ijd + 129600000).tdiv 86400000).tmod 7
  n - if n < zw then zw - 7 else zw

/-- The Julian day can be moved to the day of the week `n`. -/
def WeekdayRoom (ijd n : Int) : Prop :=
  Fits (ijd + 129600000) ∧ Fits (ijd + daysToWeekday ijd n * 86400000)

/-- The sums with the Julian day do not overflow. -/
def Room (p : DateTime) : Modifier → Prop
  | .weekday n =>
      p.DayRoom ∧ ∀ q, p.computeYmdHms = .ok q → q.stuck = true → WeekdayRoom q.ijd n
  | .startOf _ => p.DateRoom
  | .offset delta => p.live = true → Fits (p.ijd + delta)
  | .units idx r rxform => (idx = 4 ∨ idx = 5 → p.DayRoom) ∧
      ∀ q, p.addWhole idx r = .ok q → q.live = true → Fits (q.ijd + unitsToMs idx r rxform)
  | _ => True

/-! ## Milliseconds -/

/-- Milliseconds are added if they find room where the Julian day counts. -/
theorem addMs_iff {p : DateTime} {delta : Int} (countable : p.Countable)
    (few : -2 ^ 61 ≤ delta ∧ delta ≤ 2 ^ 61) :
    (∃ q, p.addMs delta = .ok q) ↔ (p.live = true → Fits (p.ijd + delta)) := by
  obtain ⟨ijd, validJd, error, computed, _, kept, fresh, _⟩ := countable.computeJd
  unfold addMs
  simp only [computed, Outcome.ok_bind]
  constructor
  · rintro ⟨q, run⟩ live
    obtain ⟨sum, fits, _⟩ := Outcome.bind_eq_ok.mp run
    rw [← kept live]
    exact (i64_eq_ok.mp fits).1
  · intro room
    have fits : Fits (ijd + delta) := by
      cases live : p.live with
      | true =>
          rw [kept live]
          exact room live
      | false =>
          have bounds := fresh live
          exact ⟨by omega, by omega⟩
    rw [i64_of_fits fits, Outcome.ok_bind]
    exact ⟨_, rfl⟩

theorem Cleared.sound {p : DateTime} (cleared : p.Cleared) : p.Sound :=
  ⟨cleared.1, fun dated => absurd dated (by rw [cleared.2.1]; decide),
    fun timed => absurd timed (by rw [cleared.2.2]; decide)⟩

/-! ## Months and years -/

/-- Months are a month, and years. -/
theorem months_bounds {m low high : Int} (below : low ≤ m) (above : m ≤ high) :
    ((low - 12) / 12 ≤ (if 0 < m then m - 1 else m - 12).tdiv 12 ∧
      (if 0 < m then m - 1 else m - 12).tdiv 12 ≤ high / 12) ∧
      1 ≤ m - (if 0 < m then m - 1 else m - 12).tdiv 12 * 12 ∧
      m - (if 0 < m then m - 1 else m - 12).tdiv 12 * 12 ≤ 12 := by
  split
  · rw [Int.tdiv_eq_ediv_of_nonneg (by omega)]
    omega
  · have backward : m - 12 = -(12 - m) := by omega
    rw [backward, Int.neg_tdiv, Int.tdiv_eq_ediv_of_nonneg (by omega)]
    omega

/-- A date that is moved can be turned to a Julian day if it is near. -/
theorem countable_moved {p : DateTime} (sound : p.Sound) (dated : p.validYmd = true) {y m : Int}
    (near : -4713 ≤ y → y ≤ 9999 →
      (-2 ^ 22 ≤ m ∧ m ≤ 2 ^ 22) ∧ (-2 ^ 27 ≤ p.d ∧ p.d ≤ 2 ^ 27)) :
    Countable { p with y, m, validJd := false } := by
  refine ⟨sound.julian, fun free => ?_, sound.timed⟩
  have date : ymd { p with y, m, validJd := false } = (y, m, p.d) := if_pos dated
  rw [stuck, date, Bool.or_eq_false_iff, Bool.not_eq_false', Bool.and_eq_true, decide_eq_true_iff,
    decide_eq_true_iff] at free
  rw [date]
  exact ⟨free.1, near free.1.1 free.1.2⟩

/-- Months are added. A date that is too far away for its day stays out of the years. -/
theorem addMonths_ok {p : DateTime} (sound : p.Sound) (dated : p.validYmd = true) {months : Int}
    (few : -176546 ≤ months ∧ months ≤ 176546) :
    ∃ q, p.addMonths months = .ok q ∧ q.Countable := by
  obtain ⟨years, inMonths, _, near⟩ := sound.dated dated
  obtain ⟨⟨low, high⟩, first, last⟩ :=
    @months_bounds (p.m + months) (-2 ^ 39) (2 ^ 39) (by omega) (by omega)
  unfold addMonths
  have month : i64 (p.m + months) = .ok (p.m + months) := i64_of_bounds (by omega) (by omega)
  have shifted : i64 (if 0 < p.m + months then p.m + months - 1 else p.m + months - 12) =
      .ok (if 0 < p.m + months then p.m + months - 1 else p.m + months - 12) :=
    i64_of_bounds (by split <;> omega) (by split <;> omega)
  simp only [month, shifted, Outcome.ok_bind]
  have late : -2 ≤ p.m → -14714 ≤ (if 0 < p.m + months then p.m + months - 1
      else p.m + months - 12).tdiv 12 := fun later =>
    (@months_bounds (p.m + months) (-176548) (2 ^ 39) (by omega) (by omega)).1.1
  have early : p.m ≤ 12 → (if 0 < p.m + months then p.m + months - 1
      else p.m + months - 12).tdiv 12 ≤ 14713 := fun earlier =>
    (@months_bounds (p.m + months) (-2 ^ 39) 176558 (by omega) (by omega)).1.2
  generalize (if 0 < p.m + months then p.m + months - 1 else p.m + months - 12).tdiv 12 = x at *
  simp (disch := omega) only [i64_of_bounds, Outcome.ok_bind]
  refine ⟨_, rfl, countable_moved sound dated fun least greatest => ?_⟩
  rcases near with ⟨_, days⟩ | ⟨far, later⟩ | ⟨far, earlier⟩
  · exact ⟨⟨by omega, by omega⟩, days⟩
  · have first := late later
    omega
  · have last := early earlier
    omega

/-- Years are added. -/
theorem addYears_ok {p : DateTime} (sound : p.Sound) (dated : p.validYmd = true) {years : Int}
    (few : -14713 ≤ years ∧ years ≤ 14713) :
    i64 (p.y + years) = .ok (p.y + years) ∧
      Countable { p with y := p.y + years, validJd := false } := by
  obtain ⟨inYears, _, _, near⟩ := sound.dated dated
  refine ⟨i64_of_bounds (by omega) (by omega), countable_moved sound dated fun least greatest => ?_⟩
  rcases near with near | ⟨far, _⟩ | ⟨far, _⟩
  · exact near
  · omega
  · omega

/-- Months and years are added if the date and the time of day can be read. -/
theorem addWhole_iff {p : DateTime} (sound : p.Sound) {idx : Nat} {r rxform : Float64}
    (few : (Modifier.units idx r rxform).Few) :
    (∃ q, p.addWhole idx r = .ok q) ↔ (idx = 4 ∨ idx = 5 → p.DayRoom) := by
  constructor
  · rintro ⟨q, run⟩ (rfl | rfl)
    · obtain ⟨between, computed, _⟩ := Outcome.bind_eq_ok.mp run
      exact computeYmdHms_room sound computed
    · obtain ⟨between, computed, _⟩ := Outcome.bind_eq_ok.mp run
      exact computeYmdHms_room sound computed
  · intro room
    unfold addWhole
    split
    · obtain ⟨q, computed, sound', dated, _⟩ := computeYmdHms_ok sound (room (.inl rfl))
      obtain ⟨moved, added, _⟩ := addMonths_ok sound' dated (few.1 rfl)
      rw [computed, Outcome.ok_bind]
      exact ⟨moved, added⟩
    · obtain ⟨q, computed, sound', dated, _⟩ := computeYmdHms_ok sound (room (.inr rfl))
      rw [computed, Outcome.ok_bind, (addYears_ok sound' dated (few.2.1 rfl)).1]
      exact ⟨_, rfl⟩
    · exact ⟨p, rfl⟩

/-- What months and years were added to can be turned to a Julian day. -/
theorem Sound.addWhole {p q : DateTime} (sound : p.Sound) {idx : Nat} {r rxform : Float64}
    (few : (Modifier.units idx r rxform).Few) (run : p.addWhole idx r = .ok q) : q.Countable := by
  have room := (addWhole_iff sound few).mp ⟨q, run⟩
  unfold DateTime.addWhole at run
  split at run
  · obtain ⟨between, computed, sound', dated, _⟩ := computeYmdHms_ok sound (room (.inl rfl))
    obtain ⟨moved, added, countable⟩ := addMonths_ok sound' dated (few.1 rfl)
    rw [computed, Outcome.ok_bind, added] at run
    exact Except.ok.inj run ▸ countable
  · obtain ⟨between, computed, sound', dated, _⟩ := computeYmdHms_ok sound (room (.inr rfl))
    obtain ⟨year, countable⟩ := addYears_ok sound' dated (few.2.1 rfl)
    rw [computed, Outcome.ok_bind, year] at run
    exact Except.ok.inj run ▸ countable
  · exact Except.ok.inj run ▸ sound.countable

/-! ## Days of the week and beginnings -/

theorem daysToWeekday_bounds (ijd : Int) {n : Int} (days : 0 ≤ n ∧ n ≤ 7) :
    0 ≤ daysToWeekday ijd n ∧ daysToWeekday ijd n ≤ 14 := by
  unfold daysToWeekday
  have below := Int.tmod_lt_of_pos ((ijd + 129600000).tdiv 86400000) (by decide : (0 : Int) < 7)
  have above := Int.lt_tmod_of_pos ((ijd + 129600000).tdiv 86400000) (by decide : (0 : Int) < 7)
  dsimp only
  split <;> omega

theorem weekdayRoom_of_bounds {ijd n : Int} (days : 0 ≤ n ∧ n ≤ 7) (low : -2 ^ 58 ≤ ijd)
    (high : ijd ≤ 2 ^ 58) : WeekdayRoom ijd n := by
  have bounds := daysToWeekday_bounds ijd days
  exact ⟨⟨by omega, by omega⟩, by omega, by omega⟩

/-- The last steps to a day of the week. -/
theorem weekdayRoom_iff {ijd n : Int} (days : 0 ≤ n ∧ n ≤ 7) (p : DateTime) :
    (∃ q, (do
      let zw := ((← i64 (ijd + 129600000)).tdiv 86400000).tmod 7
      let zw ← i64 (if n < zw then zw - 7 else zw)
      let ijd ← i64 (ijd + (← i64 ((← i64 (n - zw)) * 86400000)))
      return clearDerived { p with ijd }) = .ok q) ↔ WeekdayRoom ijd n := by
  have bounds := daysToWeekday_bounds ijd days
  have below := Int.tmod_lt_of_pos ((ijd + 129600000).tdiv 86400000) (by decide : (0 : Int) < 7)
  have above := Int.lt_tmod_of_pos ((ijd + 129600000).tdiv 86400000) (by decide : (0 : Int) < 7)
  unfold WeekdayRoom
  by_cases first : Fits (ijd + 129600000)
  · unfold daysToWeekday at *
    rw [i64_of_fits first, Outcome.ok_bind]
    dsimp only at bounds ⊢
    generalize ((ijd + 129600000).tdiv 86400000).tmod 7 = day at *
    generalize (if n < day then day - 7 else day) = zw at *
    have small : i64 zw = .ok zw := i64_of_bounds (by omega) (by omega)
    have days' : i64 (n - zw) = .ok (n - zw) := i64_of_bounds (by omega) (by omega)
    have millis : i64 ((n - zw) * 86400000) = .ok ((n - zw) * 86400000) :=
      i64_of_bounds (by omega) (by omega)
    simp only [small, days', millis, Outcome.ok_bind]
    constructor
    · rintro ⟨q, run⟩
      obtain ⟨sum, fits, _⟩ := Outcome.bind_eq_ok.mp run
      exact ⟨first, (i64_eq_ok.mp fits).1⟩
    · rintro ⟨_, last⟩
      rw [i64_of_fits last]
      exact ⟨_, rfl⟩
  · constructor
    · rintro ⟨q, run⟩
      obtain ⟨sum, fits, _⟩ := Outcome.bind_eq_ok.mp run
      exact absurd (i64_eq_ok.mp fits).1 first
    · exact fun room => absurd room.1 first

/-- The day of the week is reached if the Julian day can be read and moved. -/
theorem toWeekday_iff {p : DateTime} (sound : p.Sound) {n : Int} (days : 0 ≤ n ∧ n ≤ 7) :
    (∃ q, p.toWeekday n = .ok q) ↔ p.Room (.weekday n) := by
  by_cases room : p.DayRoom
  · obtain ⟨q, computed, sound', _⟩ := computeYmdHms_ok sound room
    have again : Sound { q with validJd := false } := ⟨sound'.julian, sound'.dated, sound'.timed⟩
    obtain ⟨ijd, validJd, error, julian, _, kept, fresh, _⟩ := computeJd_spec again
    unfold toWeekday
    rw [computed, Outcome.ok_bind, julian, Outcome.ok_bind]
    refine (weekdayRoom_iff days _).trans ?_
    constructor
    · intro moved
      refine ⟨room, fun q' computed' stuck => ?_⟩
      obtain rfl := Except.ok.inj (computed.symm.trans computed')
      exact kept stuck ▸ moved
    · rintro ⟨_, moved⟩
      cases stuck : q.stuck with
      | true =>
          rw [kept stuck]
          exact moved q computed stuck
      | false =>
          have bounds := fresh stuck
          exact weekdayRoom_of_bounds days bounds.1 bounds.2
  · constructor
    · rintro ⟨q, run⟩
      obtain ⟨between, computed, _⟩ := Outcome.bind_eq_ok.mp run
      exact absurd (computeYmdHms_room sound computed) room
    · exact fun held => absurd held.1 room

/-- The first day of a month is a date where its days are. -/
theorem Dated.first {y m d : Int} (dated : Dated y m d) : Dated y m 1 := by
  obtain ⟨years, months, _, near⟩ := dated
  refine ⟨years, months, ⟨by decide, by decide⟩, ?_⟩
  rcases near with ⟨near, _⟩ | far
  · exact .inl ⟨near, by decide, by decide⟩
  · exact .inr far

theorem Dated.january {y m d : Int} (dated : Dated y m d) : Dated y 1 1 :=
  ⟨dated.years, ⟨by decide, by decide⟩, ⟨by decide, by decide⟩,
    .inl ⟨⟨by decide, by decide⟩, by decide, by decide⟩⟩

/-- The beginning is reached if the Julian day can be read as a date. -/
theorem toStart_iff {p : DateTime} (sound : p.Sound) {unit : Text} :
    (∃ read, p.toStart unit = .ok read) ↔ p.DateRoom := by
  unfold toStart
  split
  · rename_i none
    have invalid : p.validJd = false := by simp_all
    refine ⟨fun _ valid => ?_, fun _ => ⟨_, rfl⟩⟩
    exact absurd valid (by rw [invalid]; decide)
  · constructor
    · rintro ⟨read, run⟩
      obtain ⟨between, computed, _⟩ := Outcome.bind_eq_ok.mp run
      exact computeYmd_room computed
    · intro room
      obtain ⟨y, m, d, computed, _⟩ := computeYmd_ok sound room
      rw [computed, Outcome.ok_bind]
      dsimp only
      split
      · exact ⟨_, rfl⟩
      · split
        · exact ⟨_, rfl⟩
        · split <;> exact ⟨_, rfl⟩

theorem Sound.toStart {p q : DateTime} (sound : p.Sound) {unit : Text}
    (run : p.toStart unit = .ok (some q)) : q.Sound := by
  have room := (toStart_iff sound).mp ⟨_, run⟩
  obtain ⟨y, m, d, computed, dated, _⟩ := computeYmd_ok sound room
  unfold DateTime.toStart at run
  split at run
  · exact nomatch run
  · rw [computed, Outcome.ok_bind] at run
    dsimp only at run
    split at run
    · obtain rfl := Option.some.inj (Except.ok.inj run)
      exact ⟨sound.julian, fun _ => dated.first, fun _ => written_midnight.timed⟩
    · split at run
      · obtain rfl := Option.some.inj (Except.ok.inj run)
        exact ⟨sound.julian, fun _ => dated.january, fun _ => written_midnight.timed⟩
      · split at run
        · obtain rfl := Option.some.inj (Except.ok.inj run)
          exact ⟨sound.julian, fun _ => dated, fun _ => written_midnight.timed⟩
        · exact nomatch run

/-! ## Modifiers -/

/-- **A modifier** is applied if and only if the sums with the Julian day find room. -/
theorem applyModifier_iff {p : DateTime} (sound : p.Sound) (idx : Nat) {modifier : Modifier}
    (few : modifier.Few) : (∃ read, p.applyModifier idx modifier = .ok read) ↔ p.Room modifier := by
  cases modifier with
  | julianday => exact ⟨fun _ => trivial, fun _ => ⟨_, rfl⟩⟩
  | unixepoch => exact ⟨fun _ => trivial, fun _ => ⟨_, rfl⟩⟩
  | same => exact ⟨fun _ => trivial, fun _ => ⟨_, rfl⟩⟩
  | subsec => exact ⟨fun _ => trivial, fun _ => ⟨_, rfl⟩⟩
  | weekday n => exact Outcome.exists_map_eq_ok.trans (toWeekday_iff sound few)
  | startOf unit => exact toStart_iff sound
  | offset delta =>
      have bounded : -2 ^ 61 ≤ delta ∧ delta ≤ 2 ^ 61 := by
        obtain ⟨low, high⟩ := few
        exact ⟨by omega, by omega⟩
      exact Outcome.exists_map_eq_ok.trans (addMs_iff sound.countable bounded)
  | units length r rxform =>
      by_cases whole : length = 4 ∨ length = 5 → p.DayRoom
      · obtain ⟨q, added⟩ := (addWhole_iff sound few).mpr whole
        have moved := addMs_iff (sound.addWhole few added) few.2.2
        rw [applyModifier, added, Outcome.ok_bind]
        refine (Outcome.exists_bind_eq_ok fun _ => ⟨_, rfl⟩).trans (moved.trans ?_)
        constructor
        · intro room
          refine ⟨whole, fun q' added' => ?_⟩
          obtain rfl := Except.ok.inj (added.symm.trans added')
          exact room
        · exact fun room => room.2 q added
      · constructor
        · rintro ⟨read, run⟩
          obtain ⟨q, added, _⟩ := Outcome.bind_eq_ok.mp run
          exact absurd ((addWhole_iff sound few).mp ⟨q, added⟩) whole
        · exact fun room => absurd room.1 whole

/-- **What a modifier leaves** is kept as it was: the Julian day in range, date and time of day as
they can be. -/
theorem Sound.applyModifier {p q : DateTime} (sound : p.Sound) {idx : Nat} {modifier : Modifier}
    (run : p.applyModifier idx modifier = .ok (some q)) : q.Sound := by
  cases modifier with
  | julianday =>
      have held := Except.ok.inj run
      split at held
      · exact nomatch held
      · split at held
        · obtain rfl := Option.some.inj held
          exact ⟨sound.julian, sound.dated, sound.timed⟩
        · exact nomatch held
  | unixepoch =>
      have held := Except.ok.inj run
      split at held
      · exact nomatch held
      · obtain ⟨v, _, held⟩ := Option.bind_eq_some_iff.mp held
        split at held
        · obtain rfl := Option.some.inj held
          exact ⟨fits_asI64 _, nofun, nofun⟩
        · exact nomatch held
  | same => exact Option.some.inj (Except.ok.inj run) ▸ sound
  | subsec =>
      obtain rfl := Option.some.inj (Except.ok.inj run)
      exact ⟨sound.julian, sound.dated, sound.timed⟩
  | weekday n =>
      obtain ⟨moved, reached, same⟩ := Outcome.map_eq_ok.mp run
      exact Option.some.inj same ▸ (cleared_toWeekday reached).sound
  | startOf unit => exact sound.toStart run
  | offset delta =>
      obtain ⟨moved, added, same⟩ := Outcome.map_eq_ok.mp run
      exact Option.some.inj same ▸ (cleared_addMs added).sound
  | units length r rxform =>
      obtain ⟨between, _, run⟩ := Outcome.bind_eq_ok.mp run
      obtain ⟨moved, added, same⟩ := Outcome.bind_eq_ok.mp run
      exact Option.some.inj (Except.ok.inj same) ▸ (cleared_addMs added).sound

end DateTime

end Squrust.Sql
