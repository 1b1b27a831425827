import Squrust.Sql.ModifierSteps

/-!
# Panics of the date and time functions

A time string or a number is read without a panic, and so is everything that is made of a date and
time in the end: all six functions return a value if and only if the modifiers are applied
(`dateTimeFunctions_iff`). They are if none that is reached is blank, and the sums of each with
the Julian day in front of it find room (`FindRoom`). A blank one stops every function with a
panic (`date_blank`).
-/

set_option autoImplicit false

namespace Squrust.Sql

open Squrust.Foundation Squrust.Foundation.Float64

/-! ## All modifiers -/

/-- No modifier that is reached is blank, and each finds room in the date and time in front of
it. `NULL` ends them. -/
def FindRoom : List Value → Nat → DateTime → Prop
  | [], _, _ => True
  | m :: rest, idx, p => m ≠ .null → Text.trim m.toDisplayString ≠ [] ∧
      ∀ modifier, Means m modifier → p.Room modifier ∧
        ∀ q, p.applyModifier idx modifier = .ok (some q) → FindRoom rest (idx + 1) q

/-- A modifier that is not blank and stands for nothing ends them. -/
theorem applyModifiers_unread {m : Value} (some_ : m ≠ .null) (unread : readModifier m.toDisplayString = .ok none)
    (rest : List Value) (idx : Nat) (p : DateTime) : applyModifiers (m :: rest) idx p = .ok none := by
  rw [applyModifiers, parseModifier, unread, Outcome.ok_bind]
  · rfl
  · exact some_

/-- A modifier is applied before the ones behind it. -/
theorem applyModifiers_means {m : Value} (some_ : m ≠ .null) {modifier : Modifier}
    (means : Means m modifier) (rest : List Value) (idx : Nat) (p : DateTime) :
    (∃ read, applyModifiers (m :: rest) idx p = .ok read) ↔
      ∃ made, p.applyModifier idx modifier = .ok made ∧
        ∀ q, made = some q → ∃ read, applyModifiers rest (idx + 1) q = .ok read := by
  rw [applyModifiers, parseModifier, means, Outcome.ok_bind]
  · constructor
    · rintro ⟨read, run⟩
      obtain ⟨made, applied, run⟩ := Outcome.bind_eq_ok.mp run
      refine ⟨made, applied, ?_⟩
      rintro q rfl
      exact ⟨read, run⟩
    · rintro ⟨made, applied, later⟩
      dsimp only
      rw [applied, Outcome.ok_bind]
      cases made with
      | none => exact ⟨none, rfl⟩
      | some q => exact later q rfl
  · exact some_

/-- **All modifiers** are applied if and only if each finds room. -/
theorem applyModifiers_iff {modifiers : List Value} {idx : Nat} {p : DateTime} (sound : p.Sound) :
    (∃ read, applyModifiers modifiers idx p = .ok read) ↔ FindRoom modifiers idx p := by
  induction modifiers generalizing idx p with
  | nil => exact ⟨fun _ => trivial, fun _ => ⟨_, rfl⟩⟩
  | cons m rest ih =>
      rw [FindRoom]
      by_cases none_ : m = .null
      · subst none_
        exact ⟨fun _ some_ => absurd rfl some_, fun _ => ⟨none, rfl⟩⟩
      · rw [forall_prop_of_true none_]
        by_cases given : Text.trim m.toDisplayString ≠ []
        · obtain ⟨read, run, few⟩ := readModifier_ok given
          cases read with
          | none =>
              refine ⟨fun _ => ⟨given, fun modifier means => ?_⟩, fun _ => ?_⟩
              · exact nomatch Except.ok.inj (run.symm.trans means)
              · exact ⟨none, applyModifiers_unread none_ run rest idx p⟩
          | some modifier =>
              have applies := DateTime.applyModifier_iff sound idx (few modifier rfl)
              rw [applyModifiers_means none_ run]
              constructor
              · rintro ⟨made, applied, later⟩
                refine ⟨given, fun modifier' means => ?_⟩
                obtain rfl := Option.some.inj (Except.ok.inj (run.symm.trans means))
                refine ⟨applies.mp ⟨made, applied⟩, fun q applied' => ?_⟩
                have same := Except.ok.inj (applied.symm.trans applied')
                exact (ih (sound.applyModifier applied')).mp (later q same)
              · rintro ⟨_, room⟩
                obtain ⟨here, later⟩ := room modifier run
                obtain ⟨made, applied⟩ := applies.mpr here
                refine ⟨made, applied, ?_⟩
                rintro q rfl
                exact (ih (sound.applyModifier applied)).mpr (later q applied)
        · refine ⟨fun returned => ?_, fun room => absurd room.1 given⟩
          obtain ⟨read, run⟩ := returned
          rw [applyModifiers] at run
          · obtain ⟨made, first, _⟩ := Outcome.bind_eq_ok.mp run
            obtain ⟨modifier, means, _⟩ := Outcome.bind_eq_ok.mp first
            exact absurd means (readModifier_blank (not_not.mp given) modifier)
          · exact none_

/-- What is left is kept as it was. -/
theorem applyModifiers_sound {modifiers : List Value} {idx : Nat} {p q : DateTime} (sound : p.Sound)
    (run : applyModifiers modifiers idx p = .ok (some q)) : q.Sound := by
  induction modifiers generalizing idx p with
  | nil => exact Option.some.inj (Except.ok.inj run) ▸ sound
  | cons m rest ih =>
      obtain ⟨modifier, between, _, applied, run⟩ := applyModifiers_cons_eq_some run
      exact ih (sound.applyModifier applied) run

/-! ## What is made of it -/

/-- A date and time that is computed in the end: its Julian day is, and no sum with it overflows. -/
structure Settled (p : DateTime) : Prop where
  sound : p.Sound
  valid : p.validJd = true
  julian : 0 ≤ p.ijd ∧ p.ijd ≤ 2 ^ 62 + 2 ^ 50

theorem ReadIn.sound {p : DateTime} (read : ReadIn p) : p.Sound := by
  refine ⟨⟨?_, ?_⟩, fun dated => ?_, fun timed => (read.timed timed).1.timed⟩
  · have low := read.julian.1
    omega
  · have high := read.julian.2
    omega
  · obtain ⟨⟨years, months, days⟩, _⟩ := read.dated dated
    exact ⟨⟨by omega, by omega⟩, ⟨by omega, by omega⟩, ⟨by omega, by omega⟩,
      .inl ⟨⟨by omega, by omega⟩, by omega, by omega⟩⟩

/-- The checks at the end. -/
theorem finishBuild_ok (bare : Bool) {p : DateTime} (sound : p.Sound) :
    ∃ read, finishBuild bare p = .ok read ∧ ∀ q, read = some q → Settled q := by
  have none_ : ∀ q, (none : Option DateTime) = some q → Settled q := fun _ same => by cases same
  obtain ⟨ijd, validJd, error, computed, fits, _, _, valid⟩ := DateTime.computeJd_spec sound
  unfold finishBuild
  rw [computed, Outcome.ok_bind]
  dsimp only
  split
  · exact ⟨none, rfl, none_⟩
  · rename_i inRange
    simp only [Bool.or_eq_true, Bool.not_eq_true', not_or, Bool.not_eq_true, Bool.not_eq_false,
      Bool.and_eq_true, decide_eq_true_iff] at inRange
    obtain ⟨well, low, high⟩ := inRange
    have julian : 0 ≤ ijd ∧ ijd ≤ 2 ^ 62 + 2 ^ 50 := by
      unfold maxIjd at high
      omega
    split
    · refine ⟨_, rfl, ?_⟩
      rintro q same
      obtain rfl := Option.some.inj same
      exact ⟨⟨fits, nofun, sound.timed⟩, valid well, julian⟩
    · refine ⟨_, rfl, ?_⟩
      rintro q same
      obtain rfl := Option.some.inj same
      exact ⟨⟨fits, sound.dated, sound.timed⟩, valid well, julian⟩

/-- The modifiers of a time string, or of a number, find room. -/
def Harmless (machine : Machine) : List Value → Prop
  | [] => True
  | first :: modifiers => ∀ p, readFirst machine first = .ok (some p) → FindRoom modifiers 1 p

/-- The date and time of the arguments is computed if and only if their modifiers find room. -/
theorem moment_iff (machine : Machine) (args : List Value) :
    (∃ read, moment machine args = .ok read) ↔ Harmless machine args := by
  cases args with
  | nil =>
      obtain ⟨p, current, _⟩ := @setToCurrent_ok machine DateTime.blank rfl rfl rfl
      exact ⟨fun _ => trivial, fun _ => ⟨some p, Outcome.map_eq_ok.mpr ⟨p, current, rfl⟩⟩⟩
  | cons first modifiers =>
      obtain ⟨read, run, held⟩ := readFirst_ok machine first
      rw [moment, DateTime.build, run, Outcome.ok_bind, Harmless]
      cases read with
      | none => exact ⟨fun _ p read => (by cases run.symm.trans read), fun _ => ⟨none, rfl⟩⟩
      | some p =>
          have applies := @applyModifiers_iff modifiers 1 p (held p rfl).sound
          constructor
          · rintro ⟨read, finished⟩ p' first'
            obtain rfl := Option.some.inj (Except.ok.inj (run.symm.trans first'))
            obtain ⟨made, applied, _⟩ := Outcome.bind_eq_ok.mp finished
            exact applies.mp ⟨made, applied⟩
          · intro room
            obtain ⟨made, applied⟩ := applies.mpr (room p run)
            dsimp only
            rw [applied, Outcome.ok_bind]
            cases made with
            | none => exact ⟨none, rfl⟩
            | some q =>
                obtain ⟨read, finished, _⟩ :=
                  finishBuild_ok modifiers.isEmpty (applyModifiers_sound (held p rfl).sound applied)
                exact ⟨read, finished⟩

theorem moment_settled {machine : Machine} {args : List Value} {p : DateTime}
    (run : moment machine args = .ok (some p)) : Settled p := by
  cases args with
  | nil =>
      obtain ⟨q, current, read⟩ := @setToCurrent_ok machine DateTime.blank rfl rfl rfl
      obtain ⟨q', current', same⟩ := Outcome.map_eq_ok.mp run
      obtain rfl := Option.some.inj same
      obtain rfl := Except.ok.inj (current.symm.trans current')
      obtain ⟨sum, _, made⟩ := Outcome.bind_eq_ok.mp current
      exact ⟨read.sound, Except.ok.inj made ▸ rfl, read.julian⟩
  | cons first modifiers =>
      obtain ⟨made, read, run⟩ := Outcome.bind_eq_ok.mp run
      obtain ⟨made', read', held⟩ := readFirst_ok machine first
      obtain rfl := Except.ok.inj (read'.symm.trans read)
      cases made' with
      | none => exact nomatch run
      | some p' =>
          obtain ⟨left, applied, run⟩ := Outcome.bind_eq_ok.mp run
          cases left with
          | none => exact nomatch run
          | some q =>
              obtain ⟨read'', finished, settled⟩ :=
                finishBuild_ok modifiers.isEmpty (applyModifiers_sound (held p' rfl).sound applied)
              exact settled p (Except.ok.inj (finished.symm.trans run))

/-- What is made of any date and time without a panic is made of that of the arguments. -/
theorem onMoment_iff (machine : Machine) (args : List Value) {make : DateTime → Outcome Empty Value}
    (returns : ∀ p, Settled p → ∃ v, make p = .ok v) :
    (∃ v, onMoment machine args make = .ok v) ↔ Harmless machine args := by
  rw [← moment_iff]
  constructor
  · rintro ⟨v, run⟩
    obtain ⟨made, read, _⟩ := Outcome.bind_eq_ok.mp run
    exact ⟨made, read⟩
  · rintro ⟨made, read⟩
    unfold onMoment
    rw [read, Outcome.ok_bind]
    cases made with
    | none => exact ⟨.null, rfl⟩
    | some p => exact returns p (moment_settled read)

namespace Settled

open DateTime

variable {p : DateTime}

theorem dayRoom (settled : Settled p) : p.DayRoom := by
  have fits : Fits (p.ijd + 43200000) := by
    obtain ⟨low, high⟩ := settled.julian
    exact ⟨by omega, by omega⟩
  exact ⟨fun _ _ => fits, fun _ _ => fits⟩

theorem date (settled : Settled p) : ∃ q, p.computeYmd = .ok q := by
  obtain ⟨y, m, d, computed, _⟩ := computeYmd_ok settled.sound settled.dayRoom.1
  exact ⟨_, computed⟩

theorem time (settled : Settled p) : ∃ q, p.computeHms = .ok q := by
  obtain ⟨q, computed, _⟩ := computeHms_ok settled.sound settled.dayRoom.2
  exact ⟨q, computed⟩

/-- Date and time of day are computed beside the Julian day. -/
theorem dateTime (settled : Settled p) :
    ∃ q, p.computeYmdHms = .ok q ∧ Settled q ∧ q.validHms = true := by
  obtain ⟨q, computed, sound, _, timed, _, kept, valid⟩ := computeYmdHms_ok settled.sound settled.dayRoom
  have live : p.live = true := by rw [live, settled.valid, Bool.true_or]
  exact ⟨q, computed, ⟨sound, valid settled.valid, (kept live).symm ▸ settled.julian⟩, timed⟩

/-- The seconds since 1970. -/
theorem seconds (settled : Settled p) :
    Fits (p.ijd - unixEpochMs) ∧ Fits (p.ijd.tdiv 1000 - unixEpochMs.tdiv 1000) := by
  obtain ⟨low, high⟩ := settled.julian
  obtain ⟨low', high'⟩ : 0 ≤ p.ijd.tdiv 1000 ∧ p.ijd.tdiv 1000 ≤ 2 ^ 60 :=
    tdiv_bounds (by decide) (by omega) (by omega) le_rfl (by decide)
  have epoch : unixEpochMs.tdiv 1000 = 210866760000 := by decide
  rw [epoch]
  unfold unixEpochMs
  exact ⟨⟨by omega, by omega⟩, by omega, by omega⟩

end Settled

/-! ## Formats -/

namespace DateTime

theorem daysAfterSunday_ok {p : DateTime} (room : Fits (p.ijd + 129600000)) :
    ∃ n, p.daysAfterSunday = .ok n ∧ -6 ≤ n ∧ n ≤ 6 := by
  have below := Int.tmod_lt_of_pos ((p.ijd + 129600000).tdiv 86400000) (by decide : (0 : Int) < 7)
  have above := Int.lt_tmod_of_pos ((p.ijd + 129600000).tdiv 86400000) (by decide : (0 : Int) < 7)
  unfold daysAfterSunday
  rw [i64_of_fits room]
  exact ⟨_, rfl, by omega, by omega⟩

theorem daysAfterMonday_ok {p : DateTime} (room : Fits (p.ijd + 43200000)) :
    ∃ n, p.daysAfterMonday = .ok n ∧ -6 ≤ n ∧ n ≤ 6 := by
  have below := Int.tmod_lt_of_pos ((p.ijd + 43200000).tdiv 86400000) (by decide : (0 : Int) < 7)
  have above := Int.lt_tmod_of_pos ((p.ijd + 43200000).tdiv 86400000) (by decide : (0 : Int) < 7)
  unfold daysAfterMonday
  rw [i64_of_fits room]
  exact ⟨_, rfl, by omega, by omega⟩

/-- The first of January is computed from the year, or is the day itself. -/
theorem daysAfterJan01_ok {p : DateTime} (sound : p.Sound) (low : -2 ^ 61 ≤ p.ijd)
    (high : p.ijd ≤ 2 ^ 62 + 2 ^ 61) : ∃ n, p.daysAfterJan01 = .ok n ∧ -2 ^ 60 ≤ n ∧ n ≤ 2 ^ 60 := by
  have first : Sound { p with validJd := false, m := 1, d := 1 } :=
    ⟨sound.julian, fun dated => (sound.dated dated).january, sound.timed⟩
  obtain ⟨ijd, validJd, error, computed, _, kept, fresh, _⟩ := computeJd_spec first
  have jan01 : ijd = p.ijd ∨ -2 ^ 58 ≤ ijd ∧ ijd ≤ 2 ^ 58 := by
    cases live : DateTime.live { p with validJd := false, m := 1, d := 1 } with
    | true => exact .inl (kept live)
    | false => exact .inr (fresh live)
  have apart : Fits (p.ijd - ijd) := ⟨by omega, by omega⟩
  have noon : Fits (p.ijd - ijd + 43200000) := ⟨by omega, by omega⟩
  unfold daysAfterJan01
  rw [computed, Outcome.ok_bind]
  dsimp only
  rw [i64_of_fits apart, Outcome.ok_bind, i64_of_fits noon]
  exact ⟨_, rfl, tdiv_bounds (by decide) (by omega) (by omega) (by decide) (by decide)⟩

end DateTime

/-- The hour of a clock of twelve. -/
theorem hour12_ok {h : Int} (hours : 0 ≤ h ∧ h ≤ 99) : ∃ hour, hour12 h = .ok hour := by
  unfold hour12
  rw [i64_of_bounds (by split <;> omega) (by split <;> omega)]
  exact ⟨_, rfl⟩

/-- A week of the year. -/
theorem week_ok {days day : Int} (low : -6 ≤ day) (high : day ≤ 6) (least : -2 ^ 60 ≤ days)
    (greatest : days ≤ 2 ^ 60) : ∃ piece, (do
      let count ← i64 (days - day)
      return some (padZeros 2 ((← i64 (count + 7)).tdiv 7))) = .ok piece := by
  have count : i64 (days - day) = .ok (days - day) := i64_of_bounds (by omega) (by omega)
  have next : i64 (days - day + 7) = .ok (days - day + 7) := i64_of_bounds (by omega) (by omega)
  rw [count, Outcome.ok_bind, next]
  exact ⟨_, rfl⟩

namespace Settled

open DateTime

variable {p : DateTime}

theorem sunday (settled : Settled p) : ∃ n, p.daysAfterSunday = .ok n ∧ -6 ≤ n ∧ n ≤ 6 := by
  obtain ⟨low, high⟩ := settled.julian
  exact daysAfterSunday_ok ⟨by omega, by omega⟩

theorem monday (settled : Settled p) : ∃ n, p.daysAfterMonday = .ok n ∧ -6 ≤ n ∧ n ≤ 6 := by
  obtain ⟨low, high⟩ := settled.julian
  exact daysAfterMonday_ok ⟨by omega, by omega⟩

theorem jan01 (settled : Settled p) :
    ∃ n, p.daysAfterJan01 = .ok n ∧ -2 ^ 60 ≤ n ∧ n ≤ 2 ^ 60 := by
  obtain ⟨low, high⟩ := settled.julian
  exact daysAfterJan01_ok settled.sound (by omega) (by omega)

/-- The Thursday is at most nine days away. -/
theorem thursday (settled : Settled p) :
    ∃ q, p.isoThursday = .ok q ∧ q.Sound ∧ -2 ^ 61 ≤ q.ijd ∧ q.ijd ≤ 2 ^ 62 + 2 ^ 61 := by
  obtain ⟨low, high⟩ := settled.julian
  obtain ⟨n, monday, least, greatest⟩ := settled.monday
  have days : i64 (3 - n) = .ok (3 - n) := i64_of_bounds (by omega) (by omega)
  have millis : i64 ((3 - n) * 86400000) = .ok ((3 - n) * 86400000) :=
    i64_of_bounds (by omega) (by omega)
  have sum : Fits (p.ijd + (3 - n) * 86400000) := ⟨by omega, by omega⟩
  have moved : Sound { p with ijd := p.ijd + (3 - n) * 86400000, validYmd := false } :=
    ⟨sum, nofun, settled.sound.timed⟩
  have room : DateRoom { p with ijd := p.ijd + (3 - n) * 86400000, validYmd := false } :=
    fun _ _ => ⟨by dsimp only; omega, by dsimp only; omega⟩
  obtain ⟨y, m, d, computed, dated, _⟩ := computeYmd_ok moved room
  unfold isoThursday
  rw [monday, Outcome.ok_bind, days, Outcome.ok_bind, millis, Outcome.ok_bind, i64_of_fits sum,
    Outcome.ok_bind]
  exact ⟨_, computed, moved.withDate dated, by dsimp only; omega, by dsimp only; omega⟩

/-- **A letter behind a percent sign** is written without a panic. -/
theorem formatCode (settled : Settled p) (timed : p.validHms = true) (machine : Machine) (cf : Char) :
    ∃ piece, Sql.formatCode machine p cf = .ok piece := by
  obtain ⟨thursday, isoThursday, sound, low, high⟩ := settled.thursday
  obtain ⟨hour, clock⟩ := hour12_ok (settled.sound.timed timed).hours
  obtain ⟨days, jan01, least, greatest⟩ := settled.jan01
  obtain ⟨sunday, daysAfterSunday, leastS, greatestS⟩ := settled.sunday
  obtain ⟨monday, daysAfterMonday, leastM, greatestM⟩ := settled.monday
  obtain ⟨week, weekOfYear, leastW, greatestW⟩ := daysAfterJan01_ok sound low high
  obtain ⟨subsec, whole⟩ := settled.seconds
  unfold Sql.formatCode
  split
  -- The letters that compute nothing more first.
  all_goals try exact ⟨_, rfl⟩
  case h_5 =>
    rw [isoThursday]
    exact ⟨_, rfl⟩
  case h_6 =>
    rw [isoThursday]
    exact ⟨_, rfl⟩
  case h_7 =>
    have bounds : -2 ^ 60 ≤ week.tdiv 7 ∧ week.tdiv 7 ≤ 2 ^ 60 :=
      tdiv_bounds (by decide) (by omega) (by omega) (by decide) (by decide)
    have next : i64 (week.tdiv 7 + 1) = .ok (week.tdiv 7 + 1) := i64_of_bounds (by omega) (by omega)
    rw [isoThursday, Outcome.ok_bind, weekOfYear, Outcome.ok_bind, next]
    exact ⟨_, rfl⟩
  case h_10 =>
    rw [clock]
    exact ⟨_, rfl⟩
  case h_11 =>
    rw [clock]
    exact ⟨_, rfl⟩
  case h_12 =>
    have next : i64 (days + 1) = .ok (days + 1) := i64_of_bounds (by omega) (by omega)
    rw [jan01, Outcome.ok_bind, next]
    exact ⟨_, rfl⟩
  case h_19 =>
    rw [i64_of_fits subsec, i64_of_fits whole]
    split <;> exact ⟨_, rfl⟩
  case h_22 =>
    rw [daysAfterSunday]
    exact ⟨_, rfl⟩
  case h_23 =>
    rw [daysAfterSunday]
    exact ⟨_, rfl⟩
  case h_24 =>
    rw [jan01, Outcome.ok_bind, daysAfterSunday, Outcome.ok_bind]
    exact week_ok leastS greatestS least greatest
  case h_25 =>
    rw [jan01, Outcome.ok_bind, daysAfterMonday, Outcome.ok_bind]
    exact week_ok leastM greatestM least greatest

/-- **A format** is written without a panic. -/
theorem formatStrftime (settled : Settled p) (timed : p.validHms = true) (machine : Machine)
    (fmt out : Text) : ∃ text, Sql.formatStrftime machine p fmt out = .ok text := by
  fun_induction Sql.formatStrftime machine p fmt out with
  | case1 out => exact ⟨some out, rfl⟩
  | case2 out => exact ⟨some out, rfl⟩
  | case3 cf rest out ih =>
      obtain ⟨piece, written⟩ := settled.formatCode timed machine cf
      rw [written, Outcome.ok_bind]
      cases piece with
      | none => exact ⟨none, rfl⟩
      | some piece => exact ih piece
  | case4 out c rest _ _ ih => exact ih

end Settled

/-! ## The functions -/

/-- The modifiers behind a format find room. Nothing is read behind `NULL`. -/
def HarmlessFormat (machine : Machine) : List Value → Prop
  | [] => True
  | fmt :: rest => fmt.isNull = false → Harmless machine rest

/-- The format, from a date and time that is settled. -/
theorem strftime_iff (machine : Machine) (args : List Value) :
    (∃ v, strftime machine args = .ok v) ↔ HarmlessFormat machine args := by
  cases args with
  | nil => exact ⟨fun _ => trivial, fun _ => ⟨.null, rfl⟩⟩
  | cons fmt rest =>
      unfold strftime HarmlessFormat
      dsimp only
      cases null : fmt.isNull with
      | true => exact ⟨fun _ some_ => absurd some_ (by decide), fun _ => ⟨.null, rfl⟩⟩
      | false =>
          rw [if_neg Bool.false_ne_true, forall_prop_of_true rfl]
          refine onMoment_iff machine rest fun p settled => ?_
          obtain ⟨q, computed, settled', timed⟩ := settled.dateTime
          obtain ⟨text, written⟩ := settled'.formatStrftime timed machine fmt.toDisplayString []
          rw [computed, Outcome.ok_bind, written, Outcome.ok_bind]
          cases text with
          | none => exact ⟨.null, rfl⟩
          | some out => exact ⟨.text out, rfl⟩

/-- **The date and time functions return** if and only if no modifier that is reached is blank and
each finds room. -/
theorem dateTimeFunctions_iff (machine : Machine) (args : List Value) :
    ((∃ v, date machine args = .ok v) ↔ Harmless machine args) ∧
      ((∃ v, time machine args = .ok v) ↔ Harmless machine args) ∧
      ((∃ v, datetime machine args = .ok v) ↔ Harmless machine args) ∧
      ((∃ v, julianday machine args = .ok v) ↔ Harmless machine args) ∧
      ((∃ v, unixepoch machine args = .ok v) ↔ Harmless machine args) ∧
      ((∃ v, strftime machine args = .ok v) ↔ HarmlessFormat machine args) := by
  refine ⟨?_, ?_, ?_, ?_, ?_, strftime_iff machine args⟩
  · refine onMoment_iff machine args fun p settled => ?_
    obtain ⟨q, computed⟩ := settled.date
    rw [computed]
    exact ⟨_, rfl⟩
  · refine onMoment_iff machine args fun p settled => ?_
    obtain ⟨q, computed⟩ := settled.time
    rw [computed]
    exact ⟨_, rfl⟩
  · refine onMoment_iff machine args fun p settled => ?_
    obtain ⟨q, computed, _⟩ := settled.dateTime
    rw [computed]
    exact ⟨_, rfl⟩
  · refine onMoment_iff machine args fun p settled => ?_
    have computed : p.computeJd = .ok p := if_pos settled.valid
    rw [computed]
    exact ⟨_, rfl⟩
  · refine onMoment_iff machine args fun p settled => ?_
    have computed : p.computeJd = .ok p := if_pos settled.valid
    obtain ⟨subsec, whole⟩ := settled.seconds
    rw [computed, Outcome.ok_bind, i64_of_fits subsec, i64_of_fits whole]
    split <;> exact ⟨_, rfl⟩

/-- A blank modifier panics. -/
theorem date_blank : ¬ ∃ v, date stillMachine [.text "now".toList, .text []] = .ok v := by
  have run : date stillMachine [.text "now".toList, .text []] = Outcome.panic "index out of bounds" := rfl
  rintro ⟨v, returned⟩
  exact nomatch run.symm.trans returned

end Squrust.Sql
