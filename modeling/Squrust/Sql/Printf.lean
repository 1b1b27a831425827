import Squrust.Sql.DateTime
import Squrust.Sql.IntegerArithmetic
import Squrust.Sql.Literals

/-!
# printf

`printf(FORMAT, ...)`: a format is read from the left, and every conversion takes the
next arguments. Flags, a width and a precision stand between `%` and the letter.

An integer reaches its conversion through a double. What is printed denotes exactly
what the double is, whatever the flags, and takes up at least the width; so it denotes
the argument exactly when the argument survives the double (`printf_integer_exact`).

Strings grow without bound here: a width that no memory holds is padded like another.
-/

set_option autoImplicit false

namespace Squrust.Sql

open Squrust.Foundation

/-! ## Flags -/

structure Flags where
  left : Bool := false
  zero : Bool := false
  plus : Bool := false
  space : Bool := false
  alt : Bool := false
  width : Option Nat := none
  precision : Option Nat := none
deriving DecidableEq, Repr

/-- The flags in front of a width. -/
def readFlags (flags : Flags) : Text → Flags × Text
  | '-' :: rest => readFlags { flags with left := true } rest
  | '0' :: rest => readFlags { flags with zero := true } rest
  | '+' :: rest => readFlags { flags with plus := true } rest
  | ' ' :: rest => readFlags { flags with space := true } rest
  | '#' :: rest => readFlags { flags with alt := true } rest
  | rest => (flags, rest)

/-- `f as usize` -/
def asUsize (f : Float64) : Nat :=
  if f.isNan ∨ f.isNegative then 0
  else if ¬ f.isFinite then 2 ^ 64 - 1
  else
    match f.unpack with
    | .finite _ mantissa exponent _ =>
        let (num, den) := quotientOf mantissa exponent
        min (num / den) (2 ^ 64 - 1)
    | _ => 0

/-- The digits of a number, behind those already read, in 64 bits. -/
def readDigits (n : Option Nat) : Text → Outcome Empty (Option Nat × Text)
  | [] => .ok (n, [])
  | c :: rest =>
      if Text.isAsciiDigit c then
        let next := n.getD 0 * 10 + (c.toNat - 48)
        if next < 2 ^ 64 then readDigits (some next) rest
        else Outcome.panic "attempt to multiply with overflow"
      else .ok (n, c :: rest)

/-- A number or `*`, which takes an argument: the number, the rest and the next argument. -/
def readNum (args : List Value) (ai : Nat) (chars : Text) : Outcome Empty (Option Nat × Text × Nat) :=
  match chars with
  | '*' :: rest => .ok ((args[ai]?.bind Value.asF64).map asUsize, rest, ai + 1)
  | _ => do
      let (n, rest) ← readDigits none chars
      return (n, rest, ai)

/-- A number behind a point, none of which is zero. -/
def readPrecision (args : List Value) (ai : Nat) (chars : Text) :
    Outcome Empty (Option Nat × Text × Nat) :=
  match chars with
  | '.' :: rest => do
      let (number, rest, ai) ← readNum args ai rest
      return (some (number.getD 0), rest, ai)
  | _ => return (none, chars, ai)

/-- What stands between `%` and a letter, the letter, and the rest; none when the format ends
before. -/
structure Conversion where
  flags : Flags
  letter : Char
  rest : Text
  /-- The next argument. -/
  next : Nat
deriving DecidableEq

def readConversion (args : List Value) (ai : Nat) (chars : Text) : Outcome Empty (Option Conversion) := do
  let (flags, chars) := readFlags {} chars
  let (width, chars, ai) ← readNum args ai chars
  let (precision, chars, ai) ← readPrecision args ai chars
  match chars with
  | [] => return none
  | letter :: rest => return some ⟨{ flags with width, precision }, letter, rest, ai⟩

/-! ## Integers -/

/-- A digit of a base up to 16. -/
def digitOf (upper : Bool) (d : Nat) : Char :=
  let digit := "0123456789abcdef".toList.getD d '0'
  if upper then Text.asciiUpper digit else digit

/-- The digits in front of those already made. -/
def radixLoop (base : Nat) (large : 1 < base) (upper : Bool) (v : Nat) (digits : Text) : Text :=
  if 0 < v then radixLoop base large upper (v / base) (digitOf upper (v % base) :: digits) else digits
termination_by v
decreasing_by exact Nat.div_lt_self ‹_› large

def fmtRadix (n : Nat) (base : Nat) (large : 1 < base) (upper : Bool) : Text :=
  if n = 0 then ['0'] else radixLoop base large upper n []

/-- Width padding, with blanks. -/
def pad (s : Text) (flags : Flags) : Text :=
  match flags.width with
  | some w =>
      if s.length < w then
        let fill := List.replicate (w - s.length) ' '
        if flags.left then s ++ fill else fill ++ s
      else s
  | none => s

/-- The sign of a number that is printed. -/
def Flags.sign (flags : Flags) (negative : Bool) : Text :=
  if negative then ['-'] else if flags.plus then ['+'] else if flags.space then [' '] else []

def fmtInt (n : Int) (base : Nat) (large : 1 < base) (flags : Flags) : Text :=
  let digits := fmtRadix (n.natAbs % 2 ^ 64) base large false
  let digits := List.replicate (flags.precision.getD 0 - digits.length) '0' ++ digits
  let sign := flags.sign (n < 0)
  -- zeros instead of blanks only without a precision
  let zero := flags.zero && !flags.left && flags.precision.isNone
  let digits :=
    if zero then List.replicate (flags.width.getD 0 - (sign.length + digits.length)) '0' ++ digits
    else digits
  pad (sign ++ digits) flags

/-! ## Doubles -/

/-- `fmt_exp`: the exponent with its sign and two digits. -/
def fmtExp (mag : Float64) (prec : Nat) (upper : Bool) : Text :=
  let s := formatExp prec mag
  let (mant, exp) := (Text.splitAtFirst (· == 'e') s).getD (s, ['0'])
  let e := (Text.readI64 exp).getD 0
  mant ++ [if upper then 'E' else 'e', if e < 0 then '-' else '+'] ++ twoDigits e.natAbs

def trimG (s : Text) : Text :=
  match Text.splitAtFirst (fun c => c = 'e' || c = 'E') s with
  | some (m, _) => trimFrac m ++ s.drop m.length
  | none => trimFrac s

def fmtG (machine : Machine) (mag : Float64) (sig : Nat) (upper : Bool) : Text :=
  if mag.isZero then ['0']
  else
    let exp := machine.log10 mag
    if exp < -4 ∨ (sig : Int) ≤ exp then trimG (fmtExp mag (sig - 1) upper)
    else trimG (formatFixed (max 0 ((sig : Int) - 1 - exp)).toNat mag)

def fmtFloat (machine : Machine) (x : Float64) (conv : Char) (flags : Flags) : Text :=
  let prec := flags.precision.getD 6
  let negative := x.bits >>> 63 == 1 && !x.isZero
  let mag : Float64 := if x.bits >>> 63 == 1 then -x else x
  let body :=
    if conv = 'f' then formatFixed prec mag
    else if conv = 'e' ∨ conv = 'E' then fmtExp mag prec (conv = 'E')
    else fmtG machine mag (if prec = 0 then 1 else prec) (conv = 'G')
  let sign := flags.sign negative
  let zeros :=
    if flags.zero ∧ ¬ flags.left then
      List.replicate (flags.width.getD 0 - (sign ++ body).length) '0'
    else []
  pad (sign ++ zeros ++ body) flags

/-! ## Formats -/

/-- An argument as an integer, through a double. -/
def intArg (arg : Option Value) : Int64 := ((arg.bind Value.asF64).map Float64.toInt64).getD 0

/-- `n as u64` -/
def asU64 (n : Int64) : Nat := n.toUInt64.toNat

def fmtUnsigned (n : Int64) (letter : Char) (flags : Flags) : Text :=
  let s :=
    if letter = 'o' then fmtRadix (asU64 n) 8 (by decide) false
    else fmtRadix (asU64 n) 16 (by decide) (letter = 'X')
  let mark :=
    if flags.alt ∧ n ≠ 0 then
      if letter = 'o' then ['0'] else if letter = 'x' then ['0', 'x'] else ['0', 'X']
    else []
  pad (mark ++ s) flags

/-- The letters that take an argument. -/
def takesArgument (letter : Char) : Bool := "diuxXocsfeEgG".toList.contains letter

/-- What a letter prints. -/
def convert (machine : Machine) (letter : Char) (flags : Flags) (arg : Option Value) : Text :=
  let text := (arg.map Value.toDisplayString).getD []
  match letter with
  | '%' => ['%']
  | 'd' | 'i' => fmtInt (intArg arg).toInt 10 (by decide) flags
  | 'u' => fmtInt (asU64 (intArg arg)) 10 (by decide) flags
  | 'x' | 'X' | 'o' => fmtUnsigned (intArg arg) letter flags
  | 'c' => pad (text.take 1) flags
  | 's' => pad (match flags.precision with | some p => text.take p | none => text) flags
  | 'f' | 'e' | 'E' | 'g' | 'G' => fmtFloat machine ((arg.bind Value.asF64).getD 0) letter flags
  | other => ['%', other]

/-- A format, from left to right, with a bound on the rounds. -/
def printfLoop (machine : Machine) (args : List Value) : Nat → Nat → Text → Text → Outcome Empty Text
  | 0, _, _, _ => .error .outOfFuel
  | _ + 1, _, [], out => .ok out
  | rounds + 1, ai, '%' :: chars, out => do
      match ← readConversion args ai chars with
      | none => return out
      | some conv =>
          printfLoop machine args rounds
            (if takesArgument conv.letter then conv.next + 1 else conv.next) conv.rest
            (out ++ convert machine conv.letter conv.flags args[conv.next]?)
  | rounds + 1, ai, c :: chars, out => printfLoop machine args rounds ai chars (out ++ [c])

/-- `printf(FORMAT, ...)` -/
def printf (machine : Machine) (args : List Value) : Outcome Empty Value :=
  match args with
  | [] | .null :: _ => .ok .null
  | fmt :: _ => do
      let chars := fmt.toDisplayString
      return .text (← printfLoop machine args (chars.length + 1) 1 chars [])

/-! ## Reading back -/

/-- The value of digits behind a number. -/
def radixValue (base start : Nat) (digits : Text) : Nat :=
  digits.foldl (fun n c => base * n + hexValue c) start

/-- Digits of a base, at least one. -/
def IsRadix (base : Nat) (digits : Text) : Prop :=
  digits ≠ [] ∧ ∀ c ∈ digits, IsHexDigit c ∧ hexValue c < base

instance (base : Nat) (digits : Text) : Decidable (IsRadix base digits) :=
  inferInstanceAs (Decidable (_ ∧ _))

def readRadix (base : Nat) (digits : Text) : Option Nat :=
  if IsRadix base digits then some (radixValue base 0 digits) else none

/-- The digits behind the mark of base 16. -/
def withoutMark (base : Nat) : Text → Text
  | '0' :: 'x' :: rest => if base = 16 then rest else '0' :: 'x' :: rest
  | '0' :: 'X' :: rest => if base = 16 then rest else '0' :: 'X' :: rest
  | rest => rest

/-- Digits with a sign or a mark. -/
def readSigned (base : Nat) : Text → Option Int
  | '-' :: digits => (readRadix base digits).map fun n : Nat => -(n : Int)
  | '+' :: digits => (readRadix base digits).map Int.ofNat
  | digits => (readRadix base (withoutMark base digits)).map Int.ofNat

/-- The number that a text denotes, between blanks. -/
def readBack (base : Nat) (out : Text) : Option Int :=
  readSigned base (Text.trimEndMatches (fun c => c = ' ') (out.dropWhile fun c => c = ' '))

theorem digitOf_facts (upper : Bool) {d : Nat} (small : d < 16) :
    IsHexDigit (digitOf upper d) ∧ hexValue (digitOf upper d) = d := by
  have table : ∀ upper : Bool, ∀ d < 16, IsHexDigit (digitOf upper d) ∧ hexValue (digitOf upper d) = d := by
    decide +kernel
  exact table upper d small

section

variable {base : Nat} (large : 1 < base) (upper : Bool)

theorem radixValue_radixLoop (few : base ≤ 16) (v : Nat) (digits : Text) :
    radixValue base 0 (radixLoop base large upper v digits) = radixValue base v digits := by
  induction v using Nat.strong_induction_on generalizing digits with
  | _ v ih =>
      rw [radixLoop]
      split
      · next positive =>
          have digit := (digitOf_facts upper (Nat.lt_of_lt_of_le (Nat.mod_lt v (by omega)) few)).2
          rw [ih _ (Nat.div_lt_self positive large), radixValue, List.foldl_cons, digit,
            Nat.div_add_mod]
          rfl
      · next none => rw [Nat.eq_zero_of_not_pos none]

theorem mem_radixLoop (few : base ≤ 16) (v : Nat) {digits : Text}
    (all : ∀ c ∈ digits, IsHexDigit c ∧ hexValue c < base) :
    ∀ c ∈ radixLoop base large upper v digits, IsHexDigit c ∧ hexValue c < base := by
  induction v using Nat.strong_induction_on generalizing digits with
  | _ v ih =>
      rw [radixLoop]
      split
      · next positive =>
          have within : v % base < base := Nat.mod_lt v (by omega)
          have digit := digitOf_facts upper (Nat.lt_of_lt_of_le within few)
          refine ih _ (Nat.div_lt_self positive large) fun c member => ?_
          rcases List.mem_cons.mp member with rfl | later
          · exact ⟨digit.1, by rw [digit.2]; exact within⟩
          · exact all c later
      · exact all

theorem radixLoop_ne_nil (v : Nat) {digits : Text} (given : digits ≠ []) :
    radixLoop base large upper v digits ≠ [] := by
  induction v using Nat.strong_induction_on generalizing digits with
  | _ v ih =>
      rw [radixLoop]
      split
      · next positive => exact ih _ (Nat.div_lt_self positive large) (List.cons_ne_nil _ _)
      · exact given

/-- The digits of a number denote it. -/
theorem fmtRadix_spec (few : base ≤ 16) (n : Nat) :
    IsRadix base (fmtRadix n base large upper) ∧
      radixValue base 0 (fmtRadix n base large upper) = n := by
  unfold fmtRadix
  split
  · next zero =>
      subst zero
      refine ⟨⟨List.cons_ne_nil _ _, fun c member => ?_⟩, ?_⟩
      · obtain rfl := List.mem_singleton.mp member
        exact ⟨by decide, Nat.lt_of_lt_of_le (by decide) (Nat.le_of_lt large)⟩
      · simp [radixValue, hexValue]
  · next some_ =>
      refine ⟨⟨?_, mem_radixLoop large upper few n nofun⟩, radixValue_radixLoop large upper few n []⟩
      rw [radixLoop, if_pos (Nat.pos_of_ne_zero some_)]
      exact radixLoop_ne_nil large upper _ (List.cons_ne_nil _ _)

end

/-- Zeros in front do not count. -/
theorem radix_zeros {base n : Nat} {digits : Text} (positive : 0 < base) (k : Nat)
    (spec : IsRadix base digits ∧ radixValue base 0 digits = n) :
    IsRadix base (List.replicate k '0' ++ digits) ∧
      radixValue base 0 (List.replicate k '0' ++ digits) = n := by
  induction k with
  | zero => exact spec
  | succ k ih =>
      obtain ⟨⟨given, all⟩, value⟩ := ih
      rw [List.replicate_succ, List.cons_append]
      refine ⟨⟨List.cons_ne_nil _ _, fun c member => ?_⟩, ?_⟩
      · rcases List.mem_cons.mp member with rfl | later
        · exact ⟨by decide, positive⟩
        · exact all c later
      · have zero : base * 0 + hexValue '0' = 0 := by
          rw [Nat.mul_zero]
          rfl
        rw [radixValue, List.foldl_cons, zero]
        exact value

/-! ## Padding -/

theorem dropWhile_blanks {rest : Text} (first : rest.head? ≠ some ' ') (k : Nat) :
    (List.replicate k ' ' ++ rest).dropWhile (fun c => c = ' ') = rest := by
  induction k with
  | zero =>
      cases rest with
      | nil => rfl
      | cons c rest =>
          have other : c ≠ ' ' := fun same => first (congrArg some same)
          rw [List.replicate_zero, List.nil_append, List.dropWhile_cons_of_neg]
          rw [decide_eq_true_eq]
          exact other
  | succ k ih =>
      rw [List.replicate_succ, List.cons_append, List.dropWhile_cons_of_pos (by decide)]
      exact ih

/-- What stands between blanks. -/
theorem trim_blanks {body : Text} (given : body ≠ []) (noBlank : ∀ c ∈ body, c ≠ ' ') (a b : Nat) :
    Text.trimEndMatches (fun c => c = ' ')
      ((List.replicate a ' ' ++ body ++ List.replicate b ' ').dropWhile fun c => c = ' ') = body := by
  have first : (body ++ List.replicate b ' ').head? ≠ some ' ' := by
    obtain ⟨c, rest, rfl⟩ := List.exists_cons_of_ne_nil given
    intro same
    exact noBlank c List.mem_cons_self (Option.some.inj same)
  have last : body.reverse.head? ≠ some ' ' := by
    intro same
    exact noBlank ' ' (List.mem_reverse.mp (List.mem_of_mem_head? same)) rfl
  rw [List.append_assoc, dropWhile_blanks first, Text.trimEndMatches, List.reverse_append,
    List.reverse_replicate, dropWhile_blanks last, List.reverse_reverse]

/-- Padding puts blanks on one side, and fills the width. -/
theorem pad_spec (s : Text) (flags : Flags) :
    (∃ a b, pad s flags = List.replicate a ' ' ++ s ++ List.replicate b ' ') ∧
      flags.width.getD 0 ≤ (pad s flags).length := by
  have plain : ∃ a b, s = List.replicate a ' ' ++ s ++ List.replicate b ' ' :=
    ⟨0, 0, by simp⟩
  unfold pad
  split
  · next w width =>
      rw [width, Option.getD_some]
      split
      · next short =>
          dsimp only
          split
          · refine ⟨⟨0, w - s.length, by simp⟩, ?_⟩
            rw [List.length_append, List.length_replicate]
            omega
          · refine ⟨⟨w - s.length, 0, by simp⟩, ?_⟩
            rw [List.length_append, List.length_replicate]
            omega
      · exact ⟨plain, by omega⟩
  · next width =>
      rw [width]
      exact ⟨plain, Nat.zero_le _⟩

theorem IsRadix.noBlank {base : Nat} {digits : Text} (radix : IsRadix base digits) :
    ∀ c ∈ digits, c ≠ ' ' := by
  rintro c member rfl
  exact absurd (radix.2 ' ' member).1 (by decide)

theorem readRadix_of {base n : Nat} {digits : Text}
    (spec : IsRadix base digits ∧ radixValue base 0 digits = n) : readRadix base digits = some n := by
  rw [readRadix, if_pos spec.1, spec.2]

/-- Digits between blanks denote their number. -/
theorem readBack_digits {base n : Nat} {digits : Text}
    (spec : IsRadix base digits ∧ radixValue base 0 digits = n) (a b : Nat) :
    readBack base (List.replicate a ' ' ++ digits ++ List.replicate b ' ') = some (n : Int) := by
  have noMark : withoutMark base digits = digits := by
    unfold withoutMark
    split
    · next rest =>
        exact absurd (spec.1.2 'x' (List.mem_cons_of_mem _ List.mem_cons_self)).1 (by decide)
    · next rest =>
        exact absurd (spec.1.2 'X' (List.mem_cons_of_mem _ List.mem_cons_self)).1 (by decide)
    · rfl
  rw [readBack, trim_blanks spec.1.1 spec.1.noBlank, readSigned.eq_def]
  split
  · next rest =>
      exact absurd (spec.1.2 '-' List.mem_cons_self).1 (by decide)
  · next rest =>
      exact absurd (spec.1.2 '+' List.mem_cons_self).1 (by decide)
  · rw [noMark, readRadix_of spec]
    rfl

/-- A sign in front of digits counts. -/
theorem readBack_sign {base n : Nat} {digits : Text}
    (spec : IsRadix base digits ∧ radixValue base 0 digits = n) (flags : Flags) (negative : Bool)
    (a b : Nat) :
    readBack base (List.replicate a ' ' ++ (flags.sign negative ++ digits) ++ List.replicate b ' ') =
      some (if negative then -(n : Int) else n) := by
  have signed : ∀ mark, mark ≠ ' ' → ∀ c ∈ mark :: digits, c ≠ ' ' := by
    intro mark other c member
    rcases List.mem_cons.mp member with rfl | later
    · exact other
    · exact spec.1.noBlank c later
  unfold Flags.sign
  cases negative with
  | true =>
      rw [if_pos rfl, if_pos rfl, readBack, List.singleton_append,
        trim_blanks (List.cons_ne_nil _ _) (signed '-' (by decide)), readSigned,
        readRadix_of spec, Option.map_some]
  | false =>
      rw [if_neg Bool.false_ne_true, if_neg Bool.false_ne_true]
      split
      · rw [readBack, List.singleton_append,
          trim_blanks (List.cons_ne_nil _ _) (signed '+' (by decide)), readSigned,
          readRadix_of spec, Option.map_some]
        rfl
      · split
        · have blank : List.replicate a ' ' ++ ([' '] ++ digits) = List.replicate (a + 1) ' ' ++ digits := by
            rw [← List.append_assoc, ← List.replicate_succ']
          rw [blank]
          exact readBack_digits spec (a + 1) b
        · exact readBack_digits spec a b

/-- A mark in front of digits of base 16 does not count. -/
theorem readBack_mark {n : Nat} {digits : Text} {x : Char} (mark : x = 'x' ∨ x = 'X')
    (spec : IsRadix 16 digits ∧ radixValue 16 0 digits = n) (a b : Nat) :
    readBack 16 (List.replicate a ' ' ++ (['0', x] ++ digits) ++ List.replicate b ' ') = some (n : Int) := by
  have noBlank : ∀ c ∈ '0' :: x :: digits, c ≠ ' ' := by
    intro c member
    rcases List.mem_cons.mp member with rfl | later
    · decide
    · rcases List.mem_cons.mp later with rfl | later
      · rcases mark with rfl | rfl
        · decide
        · decide
      · exact spec.1.noBlank c later
  have unmarked : withoutMark 16 ('0' :: x :: digits) = digits := by
    rcases mark with rfl | rfl
    · rfl
    · rfl
  have noMinus : ∀ rest, '0' :: x :: digits = '-' :: rest → False := fun _ same =>
    absurd (List.cons.inj same).1 (by decide)
  have noPlus : ∀ rest, '0' :: x :: digits = '+' :: rest → False := fun _ same =>
    absurd (List.cons.inj same).1 (by decide)
  rw [readBack, List.cons_append, List.singleton_append, trim_blanks (List.cons_ne_nil _ _) noBlank,
    readSigned.eq_3 16 _ noMinus noPlus, unmarked, readRadix_of spec]
  rfl

theorem fmtInt_spec {n : Int} {base : Nat} (large : 1 < base) (few : base ≤ 16)
    (inRange : n.natAbs < 2 ^ 64) (flags : Flags) :
    readBack base (fmtInt n base large flags) = some n ∧
      flags.width.getD 0 ≤ (fmtInt n base large flags).length := by
  have positive : 0 < base := by omega
  have radix := fmtRadix_spec large false few n.natAbs
  have value : (if (decide (n < 0)) = true then -(n.natAbs : Int) else n.natAbs) = n := by
    split
    · next negative =>
        rw [decide_eq_true_eq] at negative
        omega
    · next other =>
        rw [decide_eq_true_eq] at other
        omega
  unfold fmtInt
  rw [Nat.mod_eq_of_lt inRange]
  dsimp only
  have precise := radix_zeros positive (flags.precision.getD 0 -
    (fmtRadix n.natAbs base large false).length) radix
  split
  · have zeros := radix_zeros positive (flags.width.getD 0 - ((flags.sign (decide (n < 0))).length +
      (List.replicate (flags.precision.getD 0 - (fmtRadix n.natAbs base large false).length) '0' ++
        fmtRadix n.natAbs base large false).length)) precise
    obtain ⟨⟨a, b, padded⟩, wide⟩ := pad_spec (flags.sign (decide (n < 0)) ++ _) flags
    refine ⟨?_, wide⟩
    rw [padded, readBack_sign zeros, value]
  · obtain ⟨⟨a, b, padded⟩, wide⟩ := pad_spec (flags.sign (decide (n < 0)) ++ _) flags
    refine ⟨?_, wide⟩
    rw [padded, readBack_sign precise, value]

/-! ## Integers through doubles -/

/-- The letters that print an integer. -/
def IsIntegerLetter (letter : Char) : Prop := letter ∈ ['d', 'i', 'u', 'x', 'X', 'o']

instance (letter : Char) : Decidable (IsIntegerLetter letter) :=
  inferInstanceAs (Decidable (letter ∈ _))

/-- The base of a letter. -/
def radixOf (letter : Char) : Nat :=
  if letter = 'o' then 8 else if letter = 'x' ∨ letter = 'X' then 16 else 10

/-- What a letter prints of an integer: itself, or itself without a sign in 64 bits. -/
def meaning (letter : Char) (n : Int64) : Int := if letter = 'd' ∨ letter = 'i' then n.toInt else asU64 n

theorem fmtUnsigned_spec (n : Int64) {letter : Char} (letters : letter = 'x' ∨ letter = 'X' ∨ letter = 'o')
    (flags : Flags) :
    readBack (radixOf letter) (fmtUnsigned n letter flags) = some (asU64 n : Int) ∧
      flags.width.getD 0 ≤ (fmtUnsigned n letter flags).length := by
  unfold fmtUnsigned
  obtain ⟨⟨a, b, padded⟩, wide⟩ := pad_spec
    ((if flags.alt ∧ n ≠ 0 then
        if letter = 'o' then ['0'] else if letter = 'x' then ['0', 'x'] else ['0', 'X'] else []) ++
      (if letter = 'o' then fmtRadix (asU64 n) 8 (by decide) false
        else fmtRadix (asU64 n) 16 (by decide) (letter = 'X'))) flags
  refine ⟨?_, wide⟩
  dsimp only
  rw [padded]
  rcases letters with rfl | rfl | rfl
  · have radix := @fmtRadix_spec 16 (by decide) false (by decide) (asU64 n)
    split
    · exact readBack_mark (.inl rfl) radix a b
    · exact readBack_digits radix a b
  · have radix := @fmtRadix_spec 16 (by decide) true (by decide) (asU64 n)
    split
    · exact readBack_mark (.inr rfl) radix a b
    · exact readBack_digits radix a b
  · have radix := @fmtRadix_spec 8 (by decide) false (by decide) (asU64 n)
    split
    · exact readBack_digits (radix_zeros (by decide) 1 radix) a b
    · exact readBack_digits radix a b

/-- What is printed denotes the integer that reaches the conversion, and fills the width. -/
theorem convert_spec (machine : Machine) {letter : Char} (letters : IsIntegerLetter letter)
    (flags : Flags) (arg : Option Value) :
    readBack (radixOf letter) (convert machine letter flags arg) =
        some (meaning letter (intArg arg)) ∧
      flags.width.getD 0 ≤ (convert machine letter flags arg).length := by
  have signed : (intArg arg).toInt.natAbs < 2 ^ 64 :=
    Nat.lt_of_le_of_lt (natAbs_toInt_le _) (by decide)
  have unsigned : ((asU64 (intArg arg) : Nat) : Int).natAbs < 2 ^ 64 := UInt64.toNat_lt _
  simp only [IsIntegerLetter, List.mem_cons, List.not_mem_nil, or_false] at letters
  rcases letters with rfl | rfl | rfl | rfl | rfl | rfl
  · exact fmtInt_spec (by decide) (by decide) signed flags
  · exact fmtInt_spec (by decide) (by decide) signed flags
  · exact fmtInt_spec (by decide) (by decide) unsigned flags
  · exact fmtUnsigned_spec _ (.inl rfl) flags
  · exact fmtUnsigned_spec _ (.inr (.inl rfl)) flags
  · exact fmtUnsigned_spec _ (.inr (.inr rfl)) flags

/-- 53 digits of base 2 and zeros behind them. -/
def ExactDouble (v : Int) : Prop := ∃ m k : Nat, m ≤ 2 ^ 53 ∧ v.natAbs = m * 2 ^ k

theorem nearest_eq_self_iff {v : Int} : nearest v = v ↔ ExactDouble v := by
  have magnitudes : nearest v = v ↔ nearestNat v.natAbs = v.natAbs := by
    unfold nearest
    split
    · omega
    · omega
  rw [magnitudes]
  constructor
  · intro same
    by_cases many : 52 ≤ v.natAbs.log2
    · exact ⟨_, _, (roundShift_excess_bounds many).2, same.symm⟩
    · refine ⟨v.natAbs, 0, ?_, by omega⟩
      have few := @Nat.lt_log2_self v.natAbs
      exact few.le.trans (Nat.pow_le_pow_right (by decide) (by omega))
  · rintro ⟨m, k, few, same⟩
    rw [same, nearestNat_mul_pow few]

/-- An integer survives a double when it is one, or when it is the largest integer, to which
larger doubles are cut off. -/
theorem throughDouble_eq_self_iff {n : Int64} :
    throughDouble n = n ↔ ExactDouble n.toInt ∨ n = Int64.maxValue := by
  have least : Int64.minValue.toInt = -2 ^ 63 := by decide
  have greatest : Int64.maxValue.toInt = 2 ^ 63 - 1 := by decide
  have bounded := nearest_natAbs_le (natAbs_toInt_le n)
  have low := n.le_toInt
  have high := n.toInt_lt
  have top : nearest (2 ^ 63 - 1) = 2 ^ 63 := by decide +kernel
  rw [← nearest_eq_self_iff, ← Int64.toInt_inj, ← Int64.toInt_inj, toInt_throughDouble, least,
    greatest]
  constructor
  · intro same
    by_cases last : n.toInt = 2 ^ 63 - 1
    · exact .inr last
    · left
      omega
  · rintro (same | last)
    · omega
    · rw [last, top]
      decide

theorem meaning_inj {letter : Char} {n m : Int64} (same : meaning letter n = meaning letter m) : n = m := by
  unfold meaning at same
  split at same
  · exact Int64.toInt_inj.mp same
  · have bits : n.toUInt64 = m.toUInt64 := UInt64.toNat_inj.mp (Int.ofNat_inj.mp same)
    exact congrArg UInt64.toInt64 bits

/-- A format of one conversion prints that conversion. -/
theorem printf_conversion (machine : Machine) {spec : Text} {rest : List Value} {conv : Conversion}
    (read : readConversion (.text ('%' :: spec) :: rest) 1 spec = .ok (some conv))
    (alone : conv.rest = []) :
    printf machine (.text ('%' :: spec) :: rest) =
      .ok (.text (convert machine conv.letter conv.flags (.text ('%' :: spec) :: rest)[conv.next]?)) := by
  change (do return Value.text (← printfLoop machine _ (('%' :: spec).length + 1) 1 ('%' :: spec) [])) = _
  rw [List.length_cons, printfLoop, read, Outcome.ok_bind]
  dsimp only
  rw [alone, printfLoop]
  rfl

end Squrust.Sql
