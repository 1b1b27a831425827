import Squrust.Sql.DateTimeTexts

/-!
# Reading time strings

What is kept of a time string is a date or a time of day of a few digits, both, or a
Julian day (`ReadIn`), and it is read without a panic (`readFirst_ok`).
-/

set_option autoImplicit false

namespace Squrust.Sql

open Squrust.Foundation Squrust.Foundation.Float64 Float.Model

/-! ## Time strings -/

/-- What is kept of a time string or a number. -/
structure ReadIn (p : DateTime) : Prop where
  julian : 0 ≤ p.ijd ∧ p.ijd ≤ 2 ^ 62 + 2 ^ 50
  alone : p.validJd = true → p.validYmd = false ∧ p.validHms = false
  dated : p.validYmd = true → WrittenDate p.y p.m p.d ∧ p.rawS = none
  timed : p.validHms = true → Written p.h p.min p.s ∧ p.rawS = none
  error : p.error = false

theorem julian_blank : 0 ≤ DateTime.blank.ijd ∧ DateTime.blank.ijd ≤ 2 ^ 62 + 2 ^ 50 := by decide

theorem parseYyyyMmDd_ok (z : Text) :
    ∃ read, parseYyyyMmDd z DateTime.blank = .ok read ∧ ∀ p, read = some p → ReadIn p := by
  have none_ : ∀ p, (none : Option DateTime) = some p → ReadIn p := fun _ same => by cases same
  obtain ⟨date, run, written⟩ := readDate_ok z
  unfold parseYyyyMmDd
  rw [run, Outcome.ok_bind]
  cases date with
  | none => exact ⟨none, rfl, none_⟩
  | some parts =>
      obtain ⟨y, m, d, tail⟩ := parts
      have dated := written y m d tail rfl
      dsimp only
      split
      · refine ⟨_, rfl, ?_⟩
        rintro p same
        obtain rfl := Option.some.inj same
        exact ⟨julian_blank, nofun, fun _ => ⟨dated, rfl⟩, nofun, rfl⟩
      · obtain ⟨time, run', written'⟩ :=
          parseHhMmSs_ok (tail.dropWhile fun c => c == ' ' || c == 'T')
        rw [run', Outcome.ok_bind]
        cases time with
        | none => exact ⟨none, rfl, none_⟩
        | some parts =>
            obtain ⟨h, min, s, rest⟩ := parts
            have timed := written' h min s rest rfl
            dsimp only
            split
            · exact ⟨none, rfl, none_⟩
            · refine ⟨_, rfl, ?_⟩
              rintro p same
              obtain rfl := Option.some.inj same
              exact ⟨julian_blank, nofun, fun _ => ⟨dated, rfl⟩, fun _ => ⟨timed, rfl⟩, rfl⟩

/-- The current time, when nothing else is kept. -/
theorem setToCurrent_ok (machine : Machine) {p : DateTime} (undated : p.validYmd = false)
    (untimed : p.validHms = false) (error : p.error = false) :
    ∃ q, p.setToCurrent machine = .ok q ∧ ReadIn q := by
  have millis : 0 ≤ (machine.now.map fun millis => (Int64.ofNat millis).toInt).getD 0 ∧
      (machine.now.map fun millis => (Int64.ofNat millis).toInt).getD 0 ≤ 2 ^ 62 := by
    cases clock : machine.now with
    | none => exact ⟨le_rfl, by decide⟩
    | some millis =>
        have reach := machine.inReach millis clock
        have same : (Int64.ofNat millis).toInt = millis := Int64.toInt_ofNat_of_lt (by omega)
        rw [Option.map_some, Option.getD_some, same]
        exact ⟨by omega, by omega⟩
  unfold DateTime.setToCurrent
  generalize (machine.now.map fun millis => (Int64.ofNat millis).toInt).getD 0 = n at *
  have sum : i64 (n + unixEpochMs) = .ok (n + unixEpochMs) := by
    unfold unixEpochMs
    exact i64_of_fits ⟨by omega, by omega⟩
  dsimp only
  rw [sum, Outcome.ok_bind]
  refine ⟨_, rfl, ?_, fun _ => ⟨undated, untimed⟩, fun dated => ?_, fun timed => ?_, error⟩
  · unfold unixEpochMs
    exact ⟨by dsimp only; omega, by dsimp only; omega⟩
  · exact absurd dated (by rw [undated]; decide)
  · exact absurd timed (by rw [untimed]; decide)

/-- What is below one number, and not below another, is a finite number. -/
theorem exists_value {low high x : Float64} {l h : ℚ} (low_ : HasValue low l) (high_ : HasValue high h)
    (notBelow : low.partialCmp x ≠ some .gt) (above : x.lt high = true) : ∃ a, HasValue x a := by
  rcases hasValue_or x with finite | ⟨sign, infinite⟩ | nan
  · exact finite
  · cases sign with
    | negative => exact absurd (low_.compare_negative_infinity infinite) notBelow
    | positive =>
        have order : x.partialCmp high = some .gt := high_.compare_infinity infinite
        rw [Float64.lt, order] at above
        exact absurd above (by decide)
  · have order : x.partialCmp high = none := by
      change UnpackedFloat.compare x.unpack high.unpack = _
      rw [nan]
      rfl
    rw [Float64.lt, order] at above
    exact absurd above (by decide)

theorem within_finite {low high x : Float64} {l h : ℚ} (low_ : HasValue low l) (high_ : HasValue high h)
    (held : within low high x = true) : ∃ a, HasValue x a ∧ l ≤ a ∧ a < h := by
  rw [within, Bool.and_eq_true] at held
  obtain ⟨below, above⟩ := held
  have notBelow : low.partialCmp x ≠ some .gt := by
    intro order
    rw [Float64.le, order] at below
    exact absurd below (by decide)
  obtain ⟨a, value⟩ := exists_value low_ high_ notBelow above
  exact ⟨a, value, (low_.le_iff value).mp below, (value.lt_iff high_).mp above⟩

theorem value_maxRawJd : HasValue maxRawJd (10746969 / 2) :=
  literal_exact (by decide) (by decide) (by decide)
    ⟨⟨10746969, -1, by decide, by decide, by norm_num⟩, by norm_num⟩ (by norm_num)

/-- A number in range is a Julian day. -/
theorem readIn_setRawNumber (r : Float64) : ReadIn (DateTime.blank.setRawNumber r) := by
  unfold DateTime.setRawNumber
  split
  · rename_i inRange
    obtain ⟨a, value, low, high⟩ := within_finite hasValue_zero value_maxRawJd inRange
    have product : Between (r * 86400000.0) (0 : Int) (2 ^ 49 : Int) := by
      refine Between.mul ⟨a, value, low, high.le⟩ value_86400000 (by norm_num)
        (.ofInt (by decide)) (.ofInt (by decide)) (by norm_num) (by norm_num)
    have sum : Between (r * 86400000.0 + 0.5) (0 : Int) (2 ^ 50 : Int) :=
      product.add ⟨_, DateTime.value_half, le_rfl, le_rfl⟩ (.ofInt (by decide)) (.ofInt (by decide))
        (by norm_num) (by norm_num)
    obtain ⟨first, last⟩ := asI64_between sum (by decide) (by decide)
    exact ⟨⟨first, last.trans (by decide)⟩, fun _ => ⟨rfl, rfl⟩, nofun, nofun, rfl⟩
  · exact ⟨julian_blank, nofun, nofun, nofun, rfl⟩

theorem parseDateOrTime_ok (machine : Machine) (z : Text) :
    ∃ read, parseDateOrTime machine z DateTime.blank = .ok read ∧ ∀ p, read = some p → ReadIn p := by
  have none_ : ∀ p, (none : Option DateTime) = some p → ReadIn p := fun _ same => by cases same
  have some_ {p : DateTime} (held : ReadIn p) : ∀ q, some p = some q → ReadIn q := fun q same =>
    Option.some.inj same ▸ held
  obtain ⟨dated, run, held⟩ := parseYyyyMmDd_ok (Text.trim z)
  obtain ⟨timed, run', held'⟩ := parseHhMmSs_ok (Text.trim z)
  unfold parseDateOrTime
  dsimp only
  rw [run, Outcome.ok_bind]
  cases dated with
  | some p => exact ⟨some p, rfl, held⟩
  | none =>
      dsimp only
      rw [run', Outcome.ok_bind]
      cases left : timed.filter fun read => decide (read.2.2.2.dropWhile (· == 'Z') = []) with
      | some parts =>
          obtain ⟨h, min, s, rest⟩ := parts
          have written := held' h min s rest (Option.eq_some_of_filter_eq_some left)
          exact ⟨_, rfl, some_ ⟨julian_blank, nofun, nofun, fun _ => ⟨written, rfl⟩, rfl⟩⟩
      | none =>
          dsimp only
          split
          · obtain ⟨q, current, held⟩ := @setToCurrent_ok machine DateTime.blank rfl rfl rfl
            rw [current, Outcome.ok_bind]
            exact ⟨_, rfl, some_ held⟩
          · split
            · exact ⟨_, rfl, some_ (readIn_setRawNumber _)⟩
            · split
              · obtain ⟨q, current, held⟩ :=
                  @setToCurrent_ok machine { DateTime.blank with useSubsec := true } rfl rfl rfl
                rw [current, Outcome.ok_bind]
                exact ⟨_, rfl, some_ held⟩
              · exact ⟨none, rfl, none_⟩

/-- **A time string, or a number**, is read without a panic. -/
theorem readFirst_ok (machine : Machine) (first : Value) :
    ∃ read, readFirst machine first = .ok read ∧ ∀ p, read = some p → ReadIn p := by
  have number (value : Value) : ∀ p, value.asF64.map DateTime.blank.setRawNumber = some p → ReadIn p := by
    intro p same
    obtain ⟨r, _, rfl⟩ := Option.map_eq_some_iff.mp same
    exact readIn_setRawNumber r
  cases first with
  | null => exact ⟨none, rfl, fun _ same => by cases same⟩
  | integer i => exact ⟨_, rfl, number _⟩
  | real r => exact ⟨_, rfl, number _⟩
  | text t => exact parseDateOrTime_ok machine _
  | blob b => exact parseDateOrTime_ok machine _
  | boolean b => exact parseDateOrTime_ok machine _
  | json j => exact parseDateOrTime_ok machine _

end Squrust.Sql
