import Squrust.Sql.DateTimeTexts

/-!
# Reading what was written

A number is written with zeros in front of its digits (`padZeros_succ`), so a date and a time of
day of few digits are written in as many characters as they are read from. What is written
with two or four digits for each number is read back (`readDate_written`,
`parseHhMmSs_written`).
-/

set_option autoImplicit false

namespace Squrust.Sql

open Squrust.Foundation Squrust.Foundation.Float64

/-! ## Digits -/

/-- The last digit of a number. -/
def lastDigit (n : Nat) : Char := Nat.digitChar (n % 10)

/-- Its byte. -/
def digitByte (n : Nat) : UInt8 := UInt8.ofNat (48 + n % 10)

/-- What holds of ten digits holds of every last digit. -/
theorem of_digits {good : Nat → Prop} (each : ∀ k : Fin 10, good k) (n : Nat) : good (n % 10) :=
  each ⟨n % 10, Nat.mod_lt n (by decide)⟩

theorem encode_lastDigit (n : Nat) : String.utf8EncodeChar (lastDigit n) = [digitByte n] := by
  refine @of_digits (fun k => String.utf8EncodeChar (Nat.digitChar k) = [UInt8.ofNat (48 + k)]) ?_ n
  decide

theorem isWhitespace_lastDigit (n : Nat) : Text.isWhitespace (lastDigit n) = false := by
  refine @of_digits (fun k => Text.isWhitespace (Nat.digitChar k) = false) ?_ n
  decide

theorem lastDigit_ne {c : Char} (other : ∀ k : Fin 10, Nat.digitChar k ≠ c) (n : Nat) :
    lastDigit n ≠ c :=
  @of_digits (fun k => Nat.digitChar k ≠ c) other n

theorem toNat_digitByte (n : Nat) : (digitByte n).toNat = 48 + n % 10 := by
  refine @of_digits (fun k => (UInt8.ofNat (48 + k)).toNat = 48 + k) ?_ n
  decide

theorem isDigitByte_digitByte (n : Nat) : isDigitByte (digitByte n) = true := by
  rw [isDigitByte_iff, toNat_digitByte]
  omega

theorem lastDigit_inj {a b : Nat} (same : lastDigit a = lastDigit b) : a % 10 = b % 10 := by
  have bytes : [digitByte a] = [digitByte b] := by
    rw [← encode_lastDigit, ← encode_lastDigit, same]
  have values := congrArg UInt8.toNat (List.head_eq_of_cons_eq bytes)
  rw [toNat_digitByte, toNat_digitByte] at values
  omega

theorem toUtf8_cons (c : Char) (rest : Text) :
    Text.toUtf8 (c :: rest) = String.utf8EncodeChar c ++ Text.toUtf8 rest := by
  rw [Text.toUtf8, List.flatMap_cons]
  rfl

/-! ## Numbers with zeros in front -/

theorem padZeros_natCast (width n : Nat) :
    padZeros width (n : Int) =
      List.replicate (width - (Nat.toDigits 10 n).length) '0' ++ Nat.toDigits 10 n := by
  rw [padZeros, if_neg (by omega)]
  rfl

/-- The last digit stands behind the others. -/
theorem padZeros_succ {width : Nat} (some_ : 1 ≤ width) (n : Nat) :
    padZeros (width + 1) (n : Int) = padZeros width ((n / 10 : Nat) : Int) ++ [lastDigit n] := by
  rw [padZeros_natCast, padZeros_natCast]
  by_cases small : n < 10
  · have none : n / 10 = 0 := by omega
    have zero : ['0'] = List.replicate 1 '0' := rfl
    rw [Nat.toDigits_of_lt_base small, none, Nat.toDigits_zero, lastDigit, Nat.mod_eq_of_lt small]
    simp only [List.length_singleton, Nat.add_sub_cancel]
    rw [zero, List.replicate_append_replicate, Nat.sub_add_cancel some_]
  · rw [Nat.toDigits_of_base_le (by decide) (by omega)]
    have length : ∀ rest : List Char, (rest ++ [Nat.digitChar (n % 10)]).length = rest.length + 1 :=
      fun rest => by simp
    rw [length, Nat.add_sub_add_right, ← List.append_assoc]
    rfl

theorem padZeros_one {n : Nat} (small : n < 10) : padZeros 1 (n : Int) = [lastDigit n] := by
  rw [padZeros_natCast, Nat.toDigits_of_lt_base small, lastDigit, Nat.mod_eq_of_lt small]
  rfl

theorem padZeros_two {n : Nat} (small : n < 100) :
    padZeros 2 (n : Int) = [lastDigit (n / 10), lastDigit n] := by
  rw [padZeros_succ le_rfl, padZeros_one (by omega)]
  rfl

theorem padZeros_four {n : Nat} (small : n < 10000) :
    padZeros 4 (n : Int) =
      [lastDigit (n / 10 / 10 / 10), lastDigit (n / 10 / 10), lastDigit (n / 10), lastDigit n] := by
  rw [padZeros_succ (by decide), padZeros_succ (by decide), padZeros_two (by omega)]
  rfl

/-! ## Reading them -/

theorem pairAt_digits {bytes : Bytes} {i n : Nat} (small : n < 100)
    (first : bytes[i]? = some (digitByte (n / 10))) (second : bytes[i + 1]? = some (digitByte n)) :
    pairAt bytes i = .ok (n : Int) := by
  have tens := toNat_digitByte (n / 10)
  have ones := toNat_digitByte n
  rw [pairAt, byteAt_of_get first, byteAt_of_get second]
  simp (disch := omega) only [u8_of_bounds, Outcome.ok_bind, Except.ok.injEq]
  omega

theorem utf8Size_lastDigit (n : Nat) : (lastDigit n).utf8Size = 1 := by
  rw [← String.length_utf8EncodeChar, encode_lastDigit]
  rfl

/-- Two digits. -/
def twoDigitsOf (n : Nat) : Text := [lastDigit (n / 10), lastDigit n]

theorem parseSeconds_written {sec : Nat} (small : sec < 100) :
    parseSeconds (twoDigitsOf sec) = .ok (some (Float64.ofInt sec + 0.0, [])) := by
  have bytes : Text.toUtf8 (twoDigitsOf sec) = [digitByte (sec / 10), digitByte sec] := by
    rw [twoDigitsOf, toUtf8_cons, toUtf8_cons, encode_lastDigit, encode_lastDigit]
    rfl
  have cut : (Text.sliceFrom (twoDigitsOf sec) 2 : Outcome Empty Text) = .ok [] := by
    have front := @Text.sliceFrom_append Empty (twoDigitsOf sec) []
    rwa [twoDigitsOf, Text.byteLength_cons, Text.byteLength_cons, utf8Size_lastDigit,
      utf8Size_lastDigit] at front
  have number := @pairAt_digits [digitByte (sec / 10), digitByte sec] 0 sec small rfl rfl
  unfold parseSeconds
  rw [bytes, cut]
  dsimp only
  simp only [number, byteAt_zero, byteAt_succ, Outcome.ok_bind, isDigitByte_digitByte]
  rfl

/-- A time of day, as it is written. -/
def clockText (h min sec : Nat) : Text :=
  twoDigitsOf h ++ [':'] ++ twoDigitsOf min ++ [':'] ++ twoDigitsOf sec

/-- **A time of day that was written** is read back. -/
theorem parseHhMmSs_written {h min sec : Nat} (hours : h < 100) (minutes : min < 100)
    (seconds : sec < 100) :
    parseHhMmSs (clockText h min sec) =
      .ok (some ((h : Int), (min : Int), Float64.ofInt sec + 0.0, [])) := by
  have bytes : Text.toUtf8 (clockText h min sec) =
      [digitByte (h / 10), digitByte h, 58, digitByte (min / 10), digitByte min, 58,
        digitByte (sec / 10), digitByte sec] := by
    simp only [clockText, twoDigitsOf, List.cons_append, List.nil_append, toUtf8_cons,
      encode_lastDigit]
    rfl
  have cut : (Text.sliceFrom (clockText h min sec) 5 : Outcome Empty Text) =
      .ok (':' :: twoDigitsOf sec) := by
    have front := @Text.sliceFrom_append Empty (twoDigitsOf h ++ [':'] ++ twoDigitsOf min)
      (':' :: twoDigitsOf sec)
    simp only [twoDigitsOf, Text.byteLength_append, Text.byteLength_cons, utf8Size_lastDigit] at front
    exact front
  have behind : Text.stripPrefix [':'] (':' :: twoDigitsOf sec) = some (twoDigitsOf sec) :=
    Text.stripPrefix_eq_some.mpr rfl
  have hour := @pairAt_digits (Text.toUtf8 (clockText h min sec)) 0 h hours (by rw [bytes]; rfl)
    (by rw [bytes]; rfl)
  have minute := @pairAt_digits (Text.toUtf8 (clockText h min sec)) 3 min minutes
    (by rw [bytes]; rfl) (by rw [bytes]; rfl)
  unfold parseHhMmSs
  rw [cut]
  dsimp only
  rw [hour, minute, bytes]
  simp only [byteAt_zero, byteAt_succ, Outcome.ok_bind, isDigitByte_digitByte, behind,
    parseSeconds_written seconds]
  rfl

/-- Four digits. -/
def fourDigitsOf (n : Nat) : Text :=
  [lastDigit (n / 10 / 10 / 10), lastDigit (n / 10 / 10), lastDigit (n / 10), lastDigit n]

/-- A date, as it is written. -/
def dateDigits (y m d : Nat) : Text :=
  fourDigitsOf y ++ ['-'] ++ twoDigitsOf m ++ ['-'] ++ twoDigitsOf d

theorem value_digitByte (n : Nat) :
    (if isDigitByte (digitByte n) = true then some (((digitByte n).toNat - 48 : Nat) : Int)
      else none) = some ((n % 10 : Nat) : Int) := by
  rw [if_pos (isDigitByte_digitByte n), toNat_digitByte, Nat.add_sub_cancel_left]

/-- **A date that was written** is read back. -/
theorem readDate_written {y m d : Nat} (years : y < 10000) (months : 1 ≤ m ∧ m ≤ 12)
    (days : 1 ≤ d ∧ d ≤ 31) (tail : Text) :
    readDate (dateDigits y m d ++ tail) = .ok (some ((y : Int), (m : Int), (d : Int), tail)) := by
  have unsigned : Text.stripPrefix ['-'] (dateDigits y m d ++ tail) = none := by
    rw [Option.eq_none_iff_forall_ne_some]
    intro rest signed
    have head := List.head_eq_of_cons_eq (Text.stripPrefix_eq_some.mp signed)
    exact lastDigit_ne (by decide) _ head
  have bytes : Text.toUtf8 (dateDigits y m d ++ tail) =
      [digitByte (y / 10 / 10 / 10), digitByte (y / 10 / 10), digitByte (y / 10), digitByte y, 45,
        digitByte (m / 10), digitByte m, 45, digitByte (d / 10), digitByte d] ++ Text.toUtf8 tail := by
    simp only [dateDigits, fourDigitsOf, twoDigitsOf, List.cons_append, List.nil_append,
      toUtf8_cons, encode_lastDigit]
    rfl
  have cut : (Text.sliceFrom (dateDigits y m d ++ tail) 10 : Outcome Empty Text) = .ok tail := by
    have front := @Text.sliceFrom_append Empty (dateDigits y m d) tail
    have length : Text.byteLength (dateDigits y m d) = 10 := by
      simp only [dateDigits, fourDigitsOf, twoDigitsOf, Text.byteLength_append,
        Text.byteLength_cons, utf8Size_lastDigit]
      rfl
    rwa [length] at front
  have year : ((y / 10 / 10 / 10 % 10 : Nat) : Int) * 1000 + ((y / 10 / 10 % 10 : Nat) : Int) * 100 +
      ((y / 10 % 10 : Nat) : Int) * 10 + ((y % 10 : Nat) : Int) = y := by omega
  have month : ((m / 10 % 10 : Nat) : Int) * 10 + ((m % 10 : Nat) : Int) = m := by omega
  have day : ((d / 10 % 10 : Nat) : Int) * 10 + ((d % 10 : Nat) : Int) = d := by omega
  have held : ∀ {n : Nat}, n < 10000 → i64 n = .ok (n : Int) := fun small =>
    i64_of_bounds (by omega) (by omega)
  have real : ¬ (¬ (1 ≤ (m : Int) ∧ (m : Int) ≤ 12) ∨ ¬ (1 ≤ (d : Int) ∧ (d : Int) ≤ 31)) := by omega
  unfold readDate
  rw [unsigned, Option.getD_none]
  dsimp only
  rw [cut, bytes]
  simp only [List.cons_append, List.nil_append, List.length_cons, List.mapM_cons, List.mapM_nil,
    byteAt_zero, byteAt_succ, Outcome.ok_bind, pure_bind, value_digitByte, year, month, day,
    held years, held (show m < 10000 by omega), held (show d < 10000 by omega), if_neg real]
  rfl

/-- A date and a time of day, as they are written. -/
def stampText (y m d h min sec : Nat) : Text :=
  dateDigits y m d ++ [' '] ++ clockText h min sec

theorem trim_digits (a b : Nat) (middle : Text) :
    Text.trim (lastDigit a :: (middle ++ [lastDigit b])) = lastDigit a :: (middle ++ [lastDigit b]) := by
  have start : Text.trimStart (lastDigit a :: (middle ++ [lastDigit b])) =
      lastDigit a :: (middle ++ [lastDigit b]) := by
    rw [Text.trimStart, List.dropWhile_cons_of_neg (by rw [isWhitespace_lastDigit]; decide)]
  have behind : (lastDigit a :: (middle ++ [lastDigit b])).reverse =
      lastDigit b :: (lastDigit a :: middle).reverse := by
    rw [← List.cons_append, List.reverse_append]
    rfl
  rw [Text.trim, start, Text.trimEnd, Text.trimEndMatches, behind,
    List.dropWhile_cons_of_neg (by rw [isWhitespace_lastDigit]; decide), ← behind, List.reverse_reverse]

theorem trim_stampText (y m d h min sec : Nat) :
    Text.trim (stampText y m d h min sec) = stampText y m d h min sec := by
  have ends : stampText y m d h min sec = lastDigit (y / 10 / 10 / 10) ::
      (((fourDigitsOf y).tail ++ ['-'] ++ twoDigitsOf m ++ ['-'] ++ twoDigitsOf d ++ [' '] ++
        twoDigitsOf h ++ [':'] ++ twoDigitsOf min ++ [':', lastDigit (sec / 10)]) ++
        [lastDigit sec]) := rfl
  rw [ends]
  exact trim_digits _ _ _

/-- **A date and a time of day that were written** are read back. -/
theorem parseDateOrTime_written {machine : Machine} {y m d h min sec : Nat} (years : y < 10000)
    (months : 1 ≤ m ∧ m ≤ 12) (days : 1 ≤ d ∧ d ≤ 31) (hours : h < 100) (minutes : min < 100)
    (seconds : sec < 100) (p : DateTime) :
    parseDateOrTime machine (stampText y m d h min sec) p = .ok (some { p with
      validJd := false, validYmd := true, y, m, d, validHms := true, h, min,
      s := Float64.ofInt sec + 0.0 }) := by
  have date := @readDate_written y m d years months days ([' '] ++ clockText h min sec)
  rw [← List.append_assoc] at date
  have space : ([' '] ++ clockText h min sec).dropWhile (fun c => c == ' ' || c == 'T') =
      clockText h min sec := by
    have digit : (lastDigit (h / 10) == ' ' || lastDigit (h / 10) == 'T') = false := by
      rw [Bool.or_eq_false_iff, beq_eq_false_iff_ne, beq_eq_false_iff_ne]
      exact ⟨lastDigit_ne (by decide) _, lastDigit_ne (by decide) _⟩
    rw [List.singleton_append, List.dropWhile_cons_of_pos (by decide), clockText, twoDigitsOf]
    simp only [List.cons_append, List.nil_append]
    rw [List.dropWhile_cons_of_neg (by rw [digit]; decide)]
  have read : parseYyyyMmDd (stampText y m d h min sec) p = .ok (some { p with
      validJd := false, validYmd := true, y, m, d, validHms := true, h, min,
      s := Float64.ofInt sec + 0.0 }) := by
    unfold parseYyyyMmDd stampText
    simp only [date, Outcome.ok_bind, space, parseHhMmSs_written hours minutes seconds]
    rfl
  unfold parseDateOrTime
  rw [trim_stampText]
  simp only [read, Outcome.ok_bind]
  rfl

theorem value_written (sec : Nat) (small : sec < 100) :
    HasValue (Float64.ofInt sec + 0.0) ((sec : Int) : ℚ) := by
  have bound := @Bound.ofInt (sec : Int) (by omega)
  have sum := (@HasValue.ofInt_exact (sec : Int) (by omega)).add_exact hasValue_zero
    (by rwa [add_zero])
  rwa [add_zero] at sum

end Squrust.Sql
