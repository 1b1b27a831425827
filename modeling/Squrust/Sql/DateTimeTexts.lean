import Mathlib
import Squrust.Sql.DateTimeCalendar

/-!
# Reading dates and times of day

The bytes of a text are read one by one, and the text is cut behind bytes that are
ASCII, so that no index and no slice panics (`parseHhMmSs_ok`, `readDate_ok`). What is
read is a time of day or a date of few digits, whose seconds are those that were written and
at most 999 milliseconds.
-/

set_option autoImplicit false

namespace Squrust.Sql

open Squrust.Foundation Squrust.Foundation.Float64

/-! ## Bytes -/

@[simp] theorem byteAt_zero (b : UInt8) (rest : Bytes) : byteAt (b :: rest) 0 = .ok b := rfl

@[simp] theorem byteAt_succ (b : UInt8) (rest : Bytes) (i : Nat) :
    byteAt (b :: rest) (i + 1) = byteAt rest i := rfl

theorem byteAt_of_get {bytes : Bytes} {i : Nat} {b : UInt8} (held : bytes[i]? = some b) :
    byteAt bytes i = .ok b := by
  rw [byteAt, held]
  rfl

theorem isDigitByte_iff {b : UInt8} : isDigitByte b = true ↔ 48 ≤ b.toNat ∧ b.toNat ≤ 57 := by
  rw [isDigitByte, Bool.and_eq_true, decide_eq_true_iff, decide_eq_true_iff]
  rfl

theorem ascii_of_digit {b : UInt8} (digit : isDigitByte b = true) : b < 0x80 := by
  have bounds := isDigitByte_iff.mp digit
  change b.toNat < 128
  omega

theorem u8_of_bounds {n : Int} (low : 0 ≤ n) (high : n < 2 ^ 8) : u8 n = .ok n := if_pos ⟨low, high⟩

/-- Two digits are a number below a hundred. -/
theorem pairAt_ok {bytes : Bytes} {i : Nat} {a b : UInt8} (first : bytes[i]? = some a)
    (second : bytes[i + 1]? = some b) (digit : isDigitByte a = true) (digit' : isDigitByte b = true) :
    ∃ n, pairAt bytes i = .ok n ∧ 0 ≤ n ∧ n ≤ 99 := by
  obtain ⟨low, high⟩ := isDigitByte_iff.mp digit
  obtain ⟨low', high'⟩ := isDigitByte_iff.mp digit'
  refine ⟨(a.toNat - 48) * 10 + (b.toNat - 48), ?_, by omega, by omega⟩
  rw [pairAt, byteAt_of_get first, byteAt_of_get second]
  simp (disch := omega) only [u8_of_bounds, Outcome.ok_bind]

/-! ## Seconds -/

/-- The seconds that a number shows: what is in front of its point. -/
structure Shows (s : Float64) (sec : Int) : Prop where
  whole : asI64 s = sec
  millis : 1000 * sec ≤ asI64 (1000.0 * s + 0.5) ∧ asI64 (1000.0 * s + 0.5) ≤ 1000 * sec + 999

/-- Seconds, and at most 999 milliseconds with what rounding adds. -/
def FewMillis (s : Float64) (sec : Int) : Prop := Between s sec ((sec * 2 ^ 20 + 1047528 : Int) / 2 ^ 20)

theorem FewMillis.shows {s : Float64} {sec : Int} (few : FewMillis s sec) (low : 0 ≤ sec)
    (high : sec ≤ 99) : Shows s sec := by
  have low_ : (0 : ℚ) ≤ sec := by exact_mod_cast low
  have most : ((sec * 2 ^ 20 + 1047528 : Int) / 2 ^ 20 : ℚ) < sec + 1 := by
    push_cast
    linarith
  have product : Between (1000.0 * s) (1000 * sec : Int) (((1000 * sec + 999) * 2 ^ 8 + 1 : Int) / 2 ^ 8) := by
    refine Between.mul_comm' DateTime.value_1000 few (by norm_num) (.ofInt (by omega))
      (.dyadic (by omega) (by decide)) ?_ ?_
    · push_cast
      linarith
    · push_cast
      linarith
  have sum : Between (1000.0 * s + 0.5) (1000 * sec : Int)
      (((1000 * sec + 999) * 2 ^ 8 + 129 : Int) / 2 ^ 8) := by
    refine product.add ⟨_, DateTime.value_half, le_rfl, le_rfl⟩ (.ofInt (by omega))
      (.dyadic (by omega) (by decide)) ?_ ?_
    · push_cast
      linarith
    · push_cast
      linarith
  have upTo : (((1000 * sec + 999) * 2 ^ 8 + 129 : Int) / 2 ^ 8 : ℚ) < (1000 * sec + 999 : Int) + 1 := by
    push_cast
    linarith
  have from_ : 1000 * sec ≤ asI64 (1000.0 * s + 0.5) := by
    have bounded := sum.weaken le_rfl upTo.le
    have whole : ((1000 * sec + 999 : Int) : ℚ) + 1 = (1000 * sec + 1000 : Int) := by
      push_cast
      ring
    rw [whole] at bounded
    exact (asI64_between bounded (by omega) (by omega)).1
  exact ⟨asI64_of_between few le_rfl most low (by omega), from_,
    asI64_of_lt sum (by push_cast; linarith) upTo (by omega)⟩

/-- The seconds that were written: two digits and milliseconds, or no number. -/
def FewSeconds (s : Float64) : Prop :=
  (∃ sec, 0 ≤ sec ∧ sec ≤ 99 ∧ FewMillis s sec) ∨ s.unpack = .notANumber

theorem FewSeconds.shows {s : Float64} (few : FewSeconds s) :
    ∃ sec, 0 ≤ sec ∧ sec ≤ 99 ∧ Shows s sec := by
  rcases few with ⟨sec, low, high, millis⟩ | nan
  · exact ⟨sec, low, high, millis.shows low high⟩
  · have none : asI64 s = 0 := congrArg Int64.toInt (toInt64_nan nan)
    have none' : asI64 (1000.0 * s + 0.5) = 0 :=
      congrArg Int64.toInt (toInt64_nan (unpack_nan_add _ (unpack_mul_nan _ nan)))
    exact ⟨0, le_rfl, by decide, none, by rw [none']; decide⟩

theorem FewSeconds.bounds {s : Float64} (few : FewSeconds s) :
    -2 ^ 20 ≤ asI64 (s * 1000.0 + 0.5) ∧ asI64 (s * 1000.0 + 0.5) ≤ 2 ^ 20 := by
  rcases few with ⟨sec, low, high, millis⟩ | nan
  · have low_ : (0 : ℚ) ≤ sec := by exact_mod_cast low
    have high_ : (sec : ℚ) ≤ 99 := by exact_mod_cast high
    exact DateTime.seconds_bounds (millis.weaken (by push_cast; linarith) (by push_cast; linarith))
  · have none : asI64 (s * 1000.0 + 0.5) = 0 :=
      congrArg Int64.toInt (toInt64_nan (unpack_nan_add _ (unpack_nan_mul _ nan)))
    rw [none]
    decide

theorem hasValue_zero : HasValue 0.0 0 := by
  have unpacked : (0.0 : Float64).unpack = .zero .positive := by rfl
  rw [HasValue, unpacked]
  exact .zero _

theorem value_10 : HasValue 10.0 10 :=
  literal_exact (by decide) (by decide) (by decide) (@Bound.ofInt 10 (by decide)) (by norm_num)

theorem value_1 : HasValue 1.0 1 :=
  literal_exact (by decide) (by decide) (by decide) (@Bound.ofInt 1 (by decide)) (by norm_num)

theorem between_0_999 : Between 0.999 (0 : Int) ((1047528 : Int) / 2 ^ 20) :=
  literal_between (by decide) (by decide) (by decide) (@Bound.ofInt 0 (by decide))
    (.dyadic (by decide) (by decide)) (by norm_num) (by norm_num)

/-- **The digits behind the point**: they are ASCII, and neither the number nor the power of ten
is negative. -/
theorem readFraction_spec {bytes : Bytes} {frac scale : Float64} {consumed : Nat}
    (number : NotNegative frac.unpack) (power : NotNegative scale.unpack) :
    ∃ frac' scale' k, readFraction bytes (frac, scale, consumed) = (frac', scale', consumed + k) ∧
      k ≤ bytes.length ∧ (∀ b ∈ bytes.take k, b < 0x80) ∧ NotNegative frac'.unpack ∧
      NotNegative scale'.unpack := by
  induction bytes generalizing frac scale consumed with
  | nil => exact ⟨frac, scale, 0, rfl, Nat.zero_le _, nofun, number, power⟩
  | cons c rest ih =>
      rw [readFraction]
      by_cases digit : isDigitByte c = true
      · obtain ⟨low, high⟩ := isDigitByte_iff.mp digit
        obtain ⟨frac', scale', k, read, within_, ascii, held, held'⟩ :=
          @ih (frac * 10.0 + Float64.ofInt (c.toNat - 48 : Nat)) (scale * 10.0) (consumed + 1)
            ((number.mul value_10 (by norm_num)).add (notNegative_ofInt _))
            (power.mul value_10 (by norm_num))
        refine ⟨frac', scale', k + 1, ?_, Nat.succ_le_succ within_, ?_, held, held'⟩
        · rw [if_pos digit, read, Nat.add_assoc, Nat.add_comm 1]
        · rw [List.take_succ_cons]
          exact List.forall_mem_cons.mpr ⟨ascii_of_digit digit, ascii⟩
      · rw [if_neg digit]
        exact ⟨frac, scale, 0, rfl, Nat.zero_le _, by simp, number, power⟩

/-- Milliseconds behind seconds. -/
theorem fewMillis_add {sec : Int} (low : 0 ≤ sec) (high : sec ≤ 99) {frac : Float64}
    (part : Between frac (0 : Int) ((1047528 : Int) / 2 ^ 20)) :
    FewMillis (Float64.ofInt sec + frac) sec := by
  refine Between.add ⟨_, HasValue.ofInt_exact (by omega), le_rfl, le_rfl⟩ part (.ofInt (by omega))
    (.dyadic (by omega) (by decide)) ?_ ?_
  · push_cast
    linarith
  · push_cast
    linarith

theorem fewMillis_whole {sec : Int} (low : 0 ≤ sec) (high : sec ≤ 99) :
    FewMillis (Float64.ofInt sec + 0.0) sec :=
  fewMillis_add low high ⟨0, hasValue_zero, by norm_num, by norm_num⟩

/-- A quotient of what is not negative, cut off at 999 milliseconds. -/
theorem fewSeconds_add {sec : Int} (low : 0 ≤ sec) (high : sec ≤ 99) {frac scale : Float64}
    (number : NotNegative frac.unpack) (power : NotNegative scale.unpack) :
    FewSeconds (Float64.ofInt sec +
      if Float64.lt 0.999 (frac / scale) = true then 0.999 else frac / scale) := by
  split
  · exact .inl ⟨sec, low, high, fewMillis_add low high between_0_999⟩
  · rename_i notAbove
    rcases number.div power with nan | held
    · exact .inr (unpack_add_nan _ nan)
    · obtain ⟨limit, value, _, most⟩ := between_0_999
      have part := held.between value most (Bool.not_eq_true _ ▸ notAbove)
      exact .inl ⟨sec, low, high, fewMillis_add low high (part.weaken (by norm_num) le_rfl)⟩

/-- **Seconds** are read without a panic. -/
theorem parseSeconds_ok (after : Text) :
    ∃ read, parseSeconds after = .ok read ∧ ∀ s rest, read = some (s, rest) → FewSeconds s := by
  have some_ {s : Float64} {rest : Text} (few : FewSeconds s) :
      ∀ s' rest', some (s, rest) = some (s', rest') → FewSeconds s' := by
    rintro s' rest' same
    obtain ⟨rfl, rfl⟩ := Prod.mk.inj (Option.some.inj same)
    exact few
  unfold parseSeconds
  cases bytes : Text.toUtf8 after with
  | nil => exact ⟨none, rfl, nofun⟩
  | cons a behind =>
    cases behind with
    | nil => exact ⟨none, rfl, nofun⟩
    | cons b behind =>
      have long : ¬ (a :: b :: behind).length < 2 := by simp
      dsimp only
      rw [if_neg long]
      simp only [byteAt_zero, byteAt_succ, Outcome.ok_bind]
      by_cases digit : isDigitByte a = true
      · by_cases digit' : isDigitByte b = true
        · obtain ⟨sec, number, low, high⟩ := @pairAt_ok (a :: b :: behind) 0 a b rfl rfl digit digit'
          have ascii : ∀ c ∈ [a, b], c < 0x80 := by
            simp [ascii_of_digit digit, ascii_of_digit digit']
          obtain ⟨rest, cut, left⟩ := @Text.sliceFrom_ascii Empty after [a, b] behind bytes ascii
          have cut' : Text.sliceFrom after 2 = .ok rest := cut
          simp only [digit, digit', number, cut', Outcome.ok_bind, Bool.not_true,
            if_neg Bool.false_ne_true]
          cases point : Text.stripPrefix ['.'] rest with
          | none => exact ⟨_, rfl, some_ (.inl ⟨sec, low, high, fewMillis_whole low high⟩)⟩
          | some dot =>
              obtain ⟨frac, scale, k, read, most, ascii', number', power⟩ :=
                @readFraction_spec (Text.toUtf8 dot) 0.0 1.0 0 .zero
                  (value_1.notNegative (by norm_num))
              rw [Nat.zero_add] at read
              dsimp only
              rw [read]
              dsimp only
              by_cases none_ : k = 0
              · rw [if_pos none_]
                exact ⟨_, rfl, some_ (.inl ⟨sec, low, high, fewMillis_whole low high⟩)⟩
              · rw [if_neg none_]
                obtain rfl := Text.stripPrefix_eq_some.mp point
                have front : Text.toUtf8 (['.'] ++ dot) =
                    (46 :: (Text.toUtf8 dot).take k) ++ (Text.toUtf8 dot).drop k := by
                  change 46 :: Text.toUtf8 dot = 46 :: ((Text.toUtf8 dot).take k ++ (Text.toUtf8 dot).drop k)
                  rw [List.take_append_drop]
                have few : ∀ c ∈ 46 :: (Text.toUtf8 dot).take k, c < 0x80 :=
                  List.forall_mem_cons.mpr ⟨by decide, ascii'⟩
                obtain ⟨rest', cut'', _⟩ := @Text.sliceFrom_ascii Empty _ _ _ front few
                rw [List.length_cons, List.length_take, Nat.min_eq_left most, Nat.add_comm] at cut''
                rw [cut'']
                exact ⟨_, rfl, some_ (fewSeconds_add low high number' power)⟩
        · rw [Bool.not_eq_true] at digit'
          simp only [digit, digit']
          exact ⟨none, rfl, nofun⟩
      · rw [Bool.not_eq_true] at digit
        simp only [digit]
        exact ⟨none, rfl, nofun⟩

/-- A time of day that was written. -/
structure Written (h min : Int) (s : Float64) : Prop where
  hours : 0 ≤ h ∧ h ≤ 99
  minutes : 0 ≤ min ∧ min ≤ 99
  seconds : FewSeconds s

theorem Written.timed {h min : Int} {s : Float64} (written : Written h min s) :
    DateTime.Timed h min s :=
  ⟨written.hours, written.minutes, written.seconds.bounds⟩

theorem exists_five {bytes : Bytes} (long : ¬ bytes.length < 5) :
    ∃ b0 b1 b2 b3 b4 behind, bytes = b0 :: b1 :: b2 :: b3 :: b4 :: behind := by
  rcases bytes with _ | ⟨b0, _ | ⟨b1, _ | ⟨b2, _ | ⟨b3, _ | ⟨b4, behind⟩⟩⟩⟩⟩
  all_goals simp at long ⊢

theorem fewSeconds_zero : FewSeconds 0.0 :=
  .inl ⟨0, le_rfl, by decide, 0, hasValue_zero, by norm_num, by norm_num⟩

/-- **A time of day** is read without a panic. -/
theorem parseHhMmSs_ok (z : Text) :
    ∃ read, parseHhMmSs z = .ok read ∧
      ∀ h min s rest, read = some (h, min, s, rest) → Written h min s := by
  have none_ : ∀ h min s rest, (none : Option (Int × Int × Float64 × Text)) = some (h, min, s, rest) →
      Written h min s := nofun
  unfold parseHhMmSs
  dsimp only
  by_cases short : (Text.toUtf8 z).length < 5
  · rw [if_pos short]
    exact ⟨none, rfl, none_⟩
  · obtain ⟨b0, b1, b2, b3, b4, behind, bytes⟩ := exists_five short
    rw [if_neg short]
    rw [bytes]
    simp only [byteAt_zero, byteAt_succ, Outcome.ok_bind]
    by_cases digits : isDigitByte b0 = true ∧ isDigitByte b1 = true ∧ b2 = 58 ∧
      isDigitByte b3 = true ∧ isDigitByte b4 = true
    · obtain ⟨digit0, digit1, rfl, digit3, digit4⟩ := digits
      obtain ⟨h, hour, lowH, highH⟩ :=
        @pairAt_ok (b0 :: b1 :: 58 :: b3 :: b4 :: behind) 0 b0 b1 rfl rfl digit0 digit1
      obtain ⟨m, minute, lowM, highM⟩ :=
        @pairAt_ok (b0 :: b1 :: 58 :: b3 :: b4 :: behind) 3 b3 b4 rfl rfl digit3 digit4
      have ascii : ∀ c ∈ [b0, b1, 58, b3, b4], c < 0x80 := by
        simp [ascii_of_digit digit0, ascii_of_digit digit1, ascii_of_digit digit3,
          ascii_of_digit digit4]
      obtain ⟨rest, cut, _⟩ := @Text.sliceFrom_ascii Empty z [b0, b1, 58, b3, b4] behind bytes ascii
      have cut' : Text.sliceFrom z 5 = .ok rest := cut
      simp only [digit0, digit1, digit3, digit4, hour, minute, cut', Outcome.ok_bind]
      cases colon : Text.stripPrefix [':'] rest with
      | none =>
          refine ⟨_, rfl, ?_⟩
          rintro h' min' s' rest' same
          simp only [Option.some.injEq, Prod.mk.injEq] at same
          obtain ⟨rfl, rfl, rfl, rfl⟩ := same
          exact ⟨⟨lowH, highH⟩, ⟨lowM, highM⟩, fewSeconds_zero⟩
      | some after =>
          obtain ⟨read, run, few⟩ := parseSeconds_ok after
          dsimp only
          rw [run, Outcome.ok_bind]
          refine ⟨_, rfl, ?_⟩
          cases read with
          | none => exact none_
          | some seconds =>
              rintro h' min' s' rest' same
              simp only [Option.map_some, Option.some.injEq, Prod.mk.injEq] at same
              obtain ⟨rfl, rfl, rfl, rfl⟩ := same
              exact ⟨⟨lowH, highH⟩, ⟨lowM, highM⟩, few _ _ rfl⟩
    · split
      · exact ⟨none, rfl, none_⟩
      · split
        · exact ⟨none, rfl, none_⟩
        · split
          · exact ⟨none, rfl, none_⟩
          · split
            · exact ⟨none, rfl, none_⟩
            · split
              · exact ⟨none, rfl, none_⟩
              · exact absurd (by simp_all) digits

/-! ## Dates -/

theorem exists_ten {bytes : Bytes} (long : ¬ bytes.length < 10) :
    ∃ b0 b1 b2 b3 b4 b5 b6 b7 b8 b9 behind,
      bytes = b0 :: b1 :: b2 :: b3 :: b4 :: b5 :: b6 :: b7 :: b8 :: b9 :: behind := by
  obtain ⟨b0, b1, b2, b3, b4, rest, rfl⟩ := @exists_five bytes (by omega)
  obtain ⟨b5, b6, b7, b8, b9, behind, rfl⟩ := @exists_five rest (by simp at long; omega)
  exact ⟨b0, b1, b2, b3, b4, b5, b6, b7, b8, b9, behind, rfl⟩

/-- The value of a byte that is a digit. -/
def digitValue (c : UInt8) : Option Int :=
  if isDigitByte c then some ((c.toNat - 48 : Nat) : Int) else none

theorem digitValue_eq_some {c : UInt8} {v : Int} (value : digitValue c = some v) :
    c < 0x80 ∧ 0 ≤ v ∧ v ≤ 9 := by
  unfold digitValue at value
  split at value
  · rename_i digit
    obtain rfl := Option.some.inj value
    have bounds := isDigitByte_iff.mp digit
    exact ⟨ascii_of_digit digit, by omega, by omega⟩
  · cases value

/-- A date that was written. -/
structure WrittenDate (y m d : Int) : Prop where
  years : -9999 ≤ y ∧ y ≤ 9999
  months : 1 ≤ m ∧ m ≤ 12
  days : 1 ≤ d ∧ d ≤ 31

/-- **A date** is read without a panic. -/
theorem readDate_ok (z : Text) :
    ∃ read, readDate z = .ok read ∧ ∀ y m d tail, read = some (y, m, d, tail) → WrittenDate y m d := by
  have none_ : ∀ y m d tail, (none : Option (Int × Int × Int × Text)) = some (y, m, d, tail) →
      WrittenDate y m d := nofun
  unfold readDate
  dsimp only
  generalize (Text.stripPrefix ['-'] z).isSome = neg
  generalize (Text.stripPrefix ['-'] z).getD z = body
  by_cases short : (Text.toUtf8 body).length < 10
  · rw [if_pos short]
    exact ⟨none, rfl, none_⟩
  · obtain ⟨b0, b1, b2, b3, b4, b5, b6, b7, b8, b9, behind, bytes⟩ := exists_ten short
    rw [if_neg short, bytes]
    have fold (c : UInt8) : (if isDigitByte c = true then some ((c.toNat - 48 : Nat) : Int) else none) =
        digitValue c := rfl
    simp only [List.mapM_cons, List.mapM_nil, byteAt_zero, byteAt_succ, Outcome.ok_bind, pure_bind, fold]
    split
    · rename_i y0 y1 y2 y3 m0 m1 d0 d1 values
      simp only [List.cons.injEq, and_true] at values
      obtain ⟨value0, value1, value2, value3, value5, value6, value8, value9⟩ := values
      obtain ⟨ascii0, low0, high0⟩ := digitValue_eq_some value0
      obtain ⟨ascii1, low1, high1⟩ := digitValue_eq_some value1
      obtain ⟨ascii2, low2, high2⟩ := digitValue_eq_some value2
      obtain ⟨ascii3, low3, high3⟩ := digitValue_eq_some value3
      obtain ⟨ascii5, low5, high5⟩ := digitValue_eq_some value5
      obtain ⟨ascii6, low6, high6⟩ := digitValue_eq_some value6
      obtain ⟨ascii8, low8, high8⟩ := digitValue_eq_some value8
      obtain ⟨ascii9, low9, high9⟩ := digitValue_eq_some value9
      by_cases dashes : b4 = 45 ∧ b7 = 45
      · obtain ⟨rfl, rfl⟩ := dashes
        have ascii : ∀ c ∈ [b0, b1, b2, b3, 45, b5, b6, 45, b8, b9], c < 0x80 := by
          simp [ascii0, ascii1, ascii2, ascii3, ascii5, ascii6, ascii8, ascii9]
        obtain ⟨rest, cut, _⟩ := @Text.sliceFrom_ascii Empty body _ behind bytes ascii
        have cut' : Text.sliceFrom body 10 = .ok rest := cut
        simp (disch := omega) only [i64_of_bounds, Outcome.ok_bind, cut']
        rw [if_neg (not_not_intro rfl), if_neg (not_not_intro rfl)]
        split
        · exact ⟨none, rfl, none_⟩
        · refine ⟨_, rfl, ?_⟩
          rintro y m d tail same
          simp only [Option.some.injEq, Prod.mk.injEq] at same
          obtain ⟨rfl, rfl, rfl, rfl⟩ := same
          refine ⟨?_, by omega, by omega⟩
          split <;> omega
      · simp (disch := omega) only [i64_of_bounds, Outcome.ok_bind]
        split
        · exact ⟨none, rfl, none_⟩
        · split
          · exact ⟨none, rfl, none_⟩
          · exact absurd (by simp_all) dashes
    · exact ⟨none, rfl, none_⟩

end Squrust.Sql
