import Squrust.Foundation.ByteSlices
import Squrust.Sql.Ddl

/-!
# Values as literals

`quote` and `hex` write a value as a text, and the reader of literals turns a literal
into a value.

A blob is quoted as if it were a text, so that it comes back as one; the other values
come back as they were (`quote_read_iff`). A hex literal is cut into slices of two
bytes, which panics inside of a character, and its digits are read by a parser that
takes a sign (`hexLiteral_exact`).
-/

set_option autoImplicit false

namespace Squrust.Sql

open Squrust.Foundation

/-! ## Writing -/

/-- A digit of base 16, above nine a capital letter. -/
def hexChar (n : Nat) : Char := if n < 10 then Char.ofNat (48 + n) else Char.ofNat (55 + n)

/-- `{x:02X}` -/
def hexOfByte (x : UInt8) : Text := [hexChar (x.toNat / 16), hexChar (x.toNat % 16)]

def hexOfBytes (b : Bytes) : Text := b.flatMap hexOfByte

/-- `hex(X)` -/
def hex (args : List Value) : Value :=
  match args with
  | [] | .null :: _ => .null
  | .blob b :: _ => .text (hexOfBytes b)
  | v :: _ => .text (hexOfBytes (Text.toUtf8 v.toDisplayString))

/-- `f64::to_string`: all digits, and a point only in front of a fraction. -/
def displayReal (r : Float64) : Text :=
  if r.isNan then "NaN".toList
  else
    let magnitude := if r.isNegative then -r else r
    let body : Text :=
      if r.isZero then ['0']
      else if ¬ r.isFinite then "inf".toList
      else
        let (digits, exp) := magnitude.shortest
        if 0 ≤ exp ∧ digits.length ≤ (exp + 1).toNat then
          digits ++ List.replicate ((exp + 1).toNat - digits.length) '0'
        else formatRealFixed digits exp
    if r.isNegative then '-' :: body else body

/-- `replace('\'', "''")` -/
def doubleQuotes (t : Text) : Text := t.flatMap fun c => if c = '\'' then ['\'', '\''] else [c]

/-- `quote(X)` -/
def quote (args : List Value) : Value :=
  .text <|
    match args with
    | [] | .null :: _ => "NULL".toList
    | .integer i :: _ => displayInt i
    | .boolean b :: _ => displayInt (bit b)
    | .real r :: _ => displayReal r
    | v :: _ => '\'' :: doubleQuotes v.toDisplayString ++ ['\'']

/-! ## Reading what was quoted -/

/-- What the tokenizer and the parser make of a literal: a keyword, a number with a sign, a body
in quotes with its doubled quotes undone. -/
structure LiteralReader (Sub : Type) where
  read : Text → SqlExpr Sub
  null : read "NULL".toList = .value .null
  number : ∀ digits, digits ≠ [] → digits.all Text.isAsciiDigit →
    read digits = .value (.number digits)
  negative : ∀ digits, digits ≠ [] → digits.all Text.isAsciiDigit →
    read ('-' :: digits) = .unaryOp .minus (.value (.number digits))
  quoted : ∀ body, read ('\'' :: doubleQuotes body ++ ['\'']) = .value (.singleQuotedString body)

/-- NULL, an integer other than the smallest, a text or a blob. -/
def Quotable : Value → Prop
  | .integer i => i ≠ Int64.minValue
  | .null | .text _ | .blob _ => True
  | _ => False

theorem all_digits (n : Nat) : (Nat.toDigits 10 n).all Text.isAsciiDigit := by
  rw [List.all_eq_true]
  intro c member
  have digit := Nat.isDigit_of_mem_toDigits (by decide) (Nat.le_refl 10) member
  simpa [Text.isAsciiDigit, Char.isDigit, Char.le_def] using digit

theorem readNat_toDigits (n : Nat) : Text.readNat (Nat.toDigits 10 n) = some n := by
  have value : Text.digitsFrom 0 (Nat.toDigits 10 n) = n := by
    have same := @Nat.ofDigitChars_ten_toDigits n
    rwa [Nat.ofDigitChars_eq_foldl] at same
  rw [Text.readNat, if_neg Nat.toDigits_ne_nil, if_pos (all_digits n), value]

theorem displayInt_nonneg {i : Int64} (sign : ¬ i < 0) : displayInt i = Nat.toDigits 10 i.toInt.natAbs := by
  rw [displayInt, if_neg sign, List.nil_append]

theorem displayInt_neg {i : Int64} (sign : i < 0) :
    displayInt i = '-' :: Nat.toDigits 10 i.toInt.natAbs := by
  rw [displayInt, if_pos sign, List.singleton_append]

/-- Digits are read as their number while it is in range. -/
theorem parseI64_toDigits {n : Nat} (inRange : n < 2 ^ 63) :
    parseI64 (Nat.toDigits 10 n) = some (Int64.ofInt n) := by
  have digits := all_digits n
  have read := readNat_toDigits n
  have filtered : (some (n : Int)).filter (fun m => decide (-2 ^ 63 ≤ m ∧ m < 2 ^ 63)) = some (n : Int) := by
    rw [Option.filter_some, if_pos]
    rw [decide_eq_true_eq]
    omega
  unfold parseI64 Text.readI64
  cases shape : Nat.toDigits 10 n with
  | nil => exact absurd shape Nat.toDigits_ne_nil
  | cons c rest =>
      rw [shape] at digits read
      have digit : Text.isAsciiDigit c = true := by
        rw [List.all_cons, Bool.and_eq_true] at digits
        exact digits.1
      split
      · next same =>
          obtain ⟨rfl, -⟩ := List.cons.inj same
          exact absurd digit (by decide)
      · next same =>
          obtain ⟨rfl, -⟩ := List.cons.inj same
          exact absurd digit (by decide)
      · rw [read]
        exact congrArg (Option.map Int64.ofInt) filtered

section

variable {Sub : Type} (display : SqlDisplay Sub) (reader : LiteralReader Sub)

theorem read_number {n : Nat} (inRange : n < 2 ^ 63) :
    literalFromExpr display (.value (.number (Nat.toDigits 10 n))) = .ok (.integer (Int64.ofInt n)) := by
  rw [literalFromExpr, valueFromSql, parseI64_toDigits inRange]

/-- An integer comes back, the smallest one aside. -/
theorem read_displayInt {i : Int64} (notSmallest : i ≠ Int64.minValue) :
    literalFromExpr display (reader.read (displayInt i)) = .ok (.integer i) := by
  have apart : i.toInt ≠ -2 ^ 63 := fun same => notSmallest (Int64.toInt_inj.mp (same.trans (by decide)))
  have bottom : -2 ^ 63 ≤ i.toInt := i.le_toInt
  have top : i.toInt < 2 ^ 63 := i.toInt_lt
  by_cases sign : i < 0
  · have negative : i.toInt < 0 := Int64.lt_iff_toInt_lt.mp sign
    have inRange : i.toInt.natAbs < 2 ^ 63 := by omega
    have back : -(Int64.ofInt i.toInt.natAbs) = i := by
      rw [Int.ofNat_natAbs_of_nonpos (by omega), Int64.ofInt_neg, Int64.ofInt_toInt, Int64.neg_neg]
    have notMin : Int64.ofInt i.toInt.natAbs ≠ Int64.minValue := by
      intro same
      rw [same] at back
      exact notSmallest (back.symm.trans (by decide))
    rw [displayInt_neg sign, reader.negative _ Nat.toDigits_ne_nil (all_digits _), literalFromExpr,
      read_number display inRange, Outcome.ok_bind]
    dsimp only
    rw [negI64, if_neg notMin, back]
    rfl
  · have positive : 0 ≤ i.toInt := Int.not_lt.mp fun negative => sign (Int64.lt_iff_toInt_lt.mpr negative)
    have inRange : i.toInt.natAbs < 2 ^ 63 := by omega
    rw [displayInt_nonneg sign, reader.number _ Nat.toDigits_ne_nil (all_digits _),
      read_number display inRange, Int.natAbs_of_nonneg positive, Int64.ofInt_toInt]

/-- A quoted value comes back as it was exactly when it is no blob. -/
theorem quote_read_iff {v : Value} (quotable : Quotable v) :
    literalFromExpr display (reader.read (quote [v]).toDisplayString) = .ok v ↔ ∀ b, v ≠ .blob b := by
  cases v with
  | null =>
      refine iff_of_true ?_ nofun
      change literalFromExpr display (reader.read "NULL".toList) = _
      rw [reader.null]
      rfl
  | integer i => exact iff_of_true (read_displayInt display reader quotable) nofun
  | text t =>
      refine iff_of_true ?_ nofun
      change literalFromExpr display (reader.read ('\'' :: doubleQuotes t ++ ['\''])) = _
      rw [reader.quoted]
      rfl
  | blob b =>
      refine iff_of_false ?_ fun other => other b rfl
      change literalFromExpr display (reader.read ('\'' :: doubleQuotes (Text.fromUtf8Lossy b) ++ ['\''])) ≠ _
      rw [reader.quoted]
      exact nofun
  | real r => cases quotable
  | boolean b => cases quotable
  | json j => cases quotable

end

/-- Two quotes in a row are one. -/
def undoubleQuotes : Text → Text
  | '\'' :: '\'' :: rest => '\'' :: undoubleQuotes rest
  | c :: rest => c :: undoubleQuotes rest
  | [] => []

theorem undoubleQuotes_doubleQuotes (t : Text) : undoubleQuotes (doubleQuotes t) = t := by
  induction t with
  | nil => rfl
  | cons c t ih =>
      rw [doubleQuotes, List.flatMap_cons]
      by_cases mark : c = '\''
      · subst mark
        exact congrArg (List.cons '\'') ih
      · rw [if_neg mark, List.singleton_append, undoubleQuotes.eq_2 c _ fun _ same _ => mark same]
        exact congrArg (List.cons c) ih

/-- A reader that looks at the first character. -/
def firstCharReader (Sub : Type) : LiteralReader Sub where
  read t :=
    if t = "NULL".toList then .value .null
    else if t.head? = some '\'' then .value (.singleQuotedString (undoubleQuotes t.tail.dropLast))
    else if t.head? = some '-' then .unaryOp .minus (.value (.number t.tail))
    else .value (.number t)
  null := rfl
  number digits given all := by
    obtain ⟨c, rest, rfl⟩ := List.exists_cons_of_ne_nil given
    rw [List.all_cons, Bool.and_eq_true] at all
    have other : ∀ mark, Text.isAsciiDigit mark = false → c ≠ mark := by
      rintro mark noDigit rfl
      exact absurd all.1 (by rw [noDigit]; exact Bool.false_ne_true)
    have word : c :: rest ≠ "NULL".toList := fun same => other 'N' rfl (List.cons.inj same).1
    rw [if_neg word, List.head?_cons,
      if_neg fun same => other '\'' rfl (Option.some.inj same),
      if_neg fun same => other '-' rfl (Option.some.inj same)]
  negative _ _ _ := rfl
  quoted body := by
    have word : '\'' :: doubleQuotes body ++ ['\''] ≠ "NULL".toList := fun same =>
      absurd (List.cons.inj same).1 (by decide)
    rw [if_neg word, List.cons_append, List.head?_cons, if_pos rfl,
      List.tail_cons, List.dropLast_concat, undoubleQuotes_doubleQuotes]

def noDisplay (Sub : Type) : SqlDisplay Sub :=
  ⟨fun _ => [], fun _ => [], fun _ => [], fun _ => [], fun _ => []⟩

theorem quote_read_its :
    literalFromExpr (noDisplay Empty)
      ((firstCharReader Empty).read (quote [.text "it's".toList]).toDisplayString) =
      .ok (.text "it's".toList) :=
  (quote_read_iff (v := .text _) (noDisplay Empty) (firstCharReader Empty) trivial).mpr nofun

/-- `quote(x'FF')` -/
theorem quote_read_blob :
    literalFromExpr (noDisplay Empty)
      ((firstCharReader Empty).read (quote [.blob [255]]).toDisplayString) ≠ .ok (.blob [255]) := by
  decide

/-! ## Hex literals -/

/-- A text of accepted pairs and what they stand for. -/
inductive Spells : Text → Bytes → Prop
  | nil : Spells [] []
  | pair {first second : Char} {v : UInt8} {rest : Text} {b : Bytes}
      (read : hexByte first second = some v) (later : Spells rest b) :
      Spells (first :: second :: rest) (v :: b)

/-- In front of a slice that is no pair of digits: a character of two bytes, or two of one. -/
def RefusedPair (rest : Text) : Prop :=
  ∃ first more, rest = first :: more ∧
    (first.utf8Size = 2 ∨
      first.utf8Size = 1 ∧ ∃ second tail, more = second :: tail ∧ second.utf8Size = 1 ∧
        hexByte first second = none)

theorem utf8Size_of_ascii {c : Char} (ascii : c.toNat < 128) : c.utf8Size = 1 := by
  unfold Char.utf8Size
  rw [if_pos]
  exact UInt32.le_iff_toNat_le.mpr (Nat.le_of_lt_succ ascii)

theorem hexDigit_ascii {c : Char} {v : UInt8} (digit : hexDigit c = some v) : c.toNat < 128 := by
  unfold hexDigit at digit
  split at digit
  · next range =>
      have : c.toNat ≤ 57 := range.2
      omega
  · split at digit
    · next range =>
        have : c.toNat ≤ 102 := range.2
        omega
    · split at digit
      · next range =>
          have : c.toNat ≤ 70 := range.2
          omega
      · cases digit

/-- Accepted characters are ASCII. -/
theorem hexByte_ascii {first second : Char} {v : UInt8} (read : hexByte first second = some v) :
    first.utf8Size = 1 ∧ second.utf8Size = 1 := by
  unfold hexByte at read
  split at read
  · next plus =>
      subst plus
      exact ⟨rfl, utf8Size_of_ascii (hexDigit_ascii read)⟩
  · obtain ⟨high, found, rest⟩ := Option.bind_eq_some_iff.mp read
    obtain ⟨low, found', -⟩ := Option.bind_eq_some_iff.mp rest
    exact ⟨utf8Size_of_ascii (hexDigit_ascii found), utf8Size_of_ascii (hexDigit_ascii found')⟩

/-- The error of a literal. -/
def invalidHex (literal : Text) : SqlError :=
  .type ("invalid hex literal x'".toList ++ literal ++ ['\''])

theorem hexPairs_pair {literal rest : Text} {first second : Char} {v : UInt8}
    (read : hexByte first second = some v) :
    hexPairs literal (first :: second :: rest) = (do return v :: (← hexPairs literal rest)) := by
  obtain ⟨one, one'⟩ := hexByte_ascii read
  rw [hexPairs, one, if_neg (by decide), if_neg (by decide), one', if_neg (by decide), read]
  rfl

/-- Accepted pairs in front are kept. -/
theorem hexPairs_append {literal front rest : Text} {b : Bytes} (spells : Spells front b) :
    hexPairs literal (front ++ rest) = (do return b ++ (← hexPairs literal rest)) := by
  induction spells with
  | nil =>
      cases run : hexPairs literal rest with
      | ok b => rw [List.nil_append, run]; rfl
      | error fault => rw [List.nil_append, run]; rfl
  | pair read later ih =>
      rw [List.cons_append, List.cons_append, hexPairs_pair read, ih]
      cases hexPairs literal rest with
      | ok b => rfl
      | error fault => rfl

theorem hexPairs_refused {literal rest : Text} (refused : RefusedPair rest) :
    hexPairs literal rest = Outcome.err (invalidHex literal) := by
  obtain ⟨first, more, rfl, two | ⟨one, second, tail, rfl, one', none⟩⟩ := refused
  · rw [hexPairs.eq_def]
    dsimp only
    rw [two, if_pos rfl]
    rfl
  · rw [hexPairs, one, if_neg (by decide), if_neg (by decide), one', if_neg (by decide), none]
    rfl

/-- A text that does not start with a pair of any kind is cut in a character. -/
theorem hexPairs_cut {literal rest : Text} (given : rest ≠ [])
    (noPair : ∀ first second tail v, rest = first :: second :: tail → hexByte first second ≠ some v)
    (kept : ¬ RefusedPair rest) : ∃ reason, hexPairs literal rest = Outcome.panic reason := by
  obtain ⟨first, more, rfl⟩ := List.exists_cons_of_ne_nil given
  rw [hexPairs.eq_def]
  dsimp only
  by_cases two : first.utf8Size = 2
  · exact (kept ⟨first, more, rfl, .inl two⟩).elim
  · rw [if_neg two]
    by_cases one : first.utf8Size = 1
    · rw [if_neg (not_not_intro one)]
      cases more with
      | nil => exact ⟨_, rfl⟩
      | cons second tail =>
          dsimp only
          by_cases one' : second.utf8Size = 1
          · cases read : hexByte first second with
            | none => exact (kept ⟨first, _, rfl, .inr ⟨one, second, tail, rfl, one', read⟩⟩).elim
            | some v => exact (noPair first second tail v rfl read).elim
          · rw [if_pos one']
            exact ⟨_, rfl⟩
    · rw [if_pos one]
      exact ⟨_, rfl⟩

/-- The loop over pairs: it returns at the end, fails at a refused pair, and panics at a cut. -/
theorem hexPairs_cases (literal s : Text) :
    (∃ b, Spells s b ∧ hexPairs literal s = .ok b) ∨
    (∃ front rest b, s = front ++ rest ∧ Spells front b ∧ RefusedPair rest ∧
      hexPairs literal s = Outcome.err (invalidHex literal)) ∨
    (∃ reason, hexPairs literal s = Outcome.panic reason) := by
  induction length : s.length using Nat.strong_induction_on generalizing s with
  | _ n ih =>
      by_cases given : s = []
      · subst given
        exact .inl ⟨[], .nil, rfl⟩
      by_cases refused : RefusedPair s
      · exact .inr (.inl ⟨[], s, [], rfl, .nil, refused, hexPairs_refused refused⟩)
      by_cases pair : ∃ first second tail v, s = first :: second :: tail ∧ hexByte first second = some v
      · obtain ⟨first, second, tail, v, rfl, read⟩ := pair
        rw [List.length_cons, List.length_cons] at length
        rw [hexPairs_pair read]
        rcases ih tail.length (by omega) tail rfl with
          ⟨b, later, run⟩ | ⟨front, rest, b, rfl, later, refused, run⟩ | ⟨reason, run⟩
        · exact .inl ⟨v :: b, .pair read later, by rw [run]; rfl⟩
        · exact .inr (.inl ⟨first :: second :: front, rest, v :: b, rfl, .pair read later, refused,
            by rw [run]; rfl⟩)
        · exact .inr (.inr ⟨reason, by rw [run]; rfl⟩)
      · refine .inr (.inr (hexPairs_cut given ?_ refused))
        intro first second tail v same read
        exact pair ⟨first, second, tail, v, same, read⟩

/-! ### Hex digits -/

def IsHexDigit (c : Char) : Prop :=
  '0' ≤ c ∧ c ≤ '9' ∨ 'a' ≤ c ∧ c ≤ 'f' ∨ 'A' ≤ c ∧ c ≤ 'F'

instance (c : Char) : Decidable (IsHexDigit c) := inferInstanceAs (Decidable (_ ∧ _ ∨ _ ∧ _ ∨ _ ∧ _))

/-- What a digit of base 16 counts. -/
def hexValue (c : Char) : Nat :=
  if c ≤ '9' then c.toNat - 48 else if c ≤ 'F' then c.toNat - 55 else c.toNat - 87

/-- The bytes that pairs of digits stand for. -/
def spelled : Text → Bytes
  | high :: low :: rest => UInt8.ofNat (16 * hexValue high + hexValue low) :: spelled rest
  | _ => []

/-- An even number of digits of base 16. -/
def EvenHex (s : Text) : Prop := s.length % 2 = 0 ∧ ∀ c ∈ s, IsHexDigit c

theorem hexDigit_facts {c : Char} (digit : IsHexDigit c) :
    hexDigit c = some (UInt8.ofNat (hexValue c)) ∧ hexValue c < 16 ∧
      hexChar (hexValue c) = Text.asciiUpper c ∧ c ≠ '+' := by
  have table : ∀ n < 128, IsHexDigit (Char.ofNat n) →
      hexDigit (Char.ofNat n) = some (UInt8.ofNat (hexValue (Char.ofNat n))) ∧
        hexValue (Char.ofNat n) < 16 ∧
        hexChar (hexValue (Char.ofNat n)) = Text.asciiUpper (Char.ofNat n) ∧ Char.ofNat n ≠ '+' := by
    decide +kernel
  have ascii : c.toNat < 128 := by
    rcases digit with ⟨-, top⟩ | ⟨-, top⟩ | ⟨-, top⟩
    · exact Nat.lt_of_le_of_lt (show c.toNat ≤ 57 from top) (by decide)
    · exact Nat.lt_of_le_of_lt (show c.toNat ≤ 102 from top) (by decide)
    · exact Nat.lt_of_le_of_lt (show c.toNat ≤ 70 from top) (by decide)
  have here := table c.toNat ascii
  rw [Char.ofNat_toNat] at here
  exact here digit

/-- A pair of digits is accepted, and written again in capitals. -/
theorem hexByte_digits {high low : Char} (digit : IsHexDigit high) (digit' : IsHexDigit low) :
    hexByte high low = some (UInt8.ofNat (16 * hexValue high + hexValue low)) ∧
      hexOfByte (UInt8.ofNat (16 * hexValue high + hexValue low)) =
        [Text.asciiUpper high, Text.asciiUpper low] := by
  obtain ⟨read, small, shown, noSign⟩ := hexDigit_facts digit
  obtain ⟨read', small', shown', -⟩ := hexDigit_facts digit'
  constructor
  · rw [hexByte, if_neg noSign, read, read', UInt8.ofNat_add, UInt8.ofNat_mul]
    rfl
  · have code : (UInt8.ofNat (16 * hexValue high + hexValue low)).toNat =
        16 * hexValue high + hexValue low := by
      rw [UInt8.toNat_ofNat']
      omega
    have upper : (16 * hexValue high + hexValue low) / 16 = hexValue high := by omega
    have lower : (16 * hexValue high + hexValue low) % 16 = hexValue low := by omega
    rw [hexOfByte, code, upper, lower, shown, shown']

theorem EvenHex.spells {s : Text} (even : EvenHex s) :
    Spells s (spelled s) ∧ hexOfBytes (spelled s) = Text.toAsciiUppercase s ∧
      Text.byteLength s = s.length := by
  obtain ⟨length, digits⟩ := even
  induction s using spelled.induct with
  | case1 high low rest ih =>
      have digit := digits high List.mem_cons_self
      have digit' := digits low (List.mem_cons_of_mem _ List.mem_cons_self)
      obtain ⟨read, shown⟩ := hexByte_digits digit digit'
      obtain ⟨one, one'⟩ := hexByte_ascii read
      rw [List.length_cons, List.length_cons] at length
      obtain ⟨later, shownLater, sizes⟩ := ih (by omega) fun c member =>
        digits c (List.mem_cons_of_mem _ (List.mem_cons_of_mem _ member))
      refine ⟨.pair read later, ?_, ?_⟩
      · rw [spelled, hexOfBytes, List.flatMap_cons, shown, ← hexOfBytes, shownLater]
        rfl
      · rw [Text.byteLength_cons, Text.byteLength_cons, one, one', sizes, List.length_cons,
          List.length_cons]
        omega
  | case2 rest other =>
      obtain _ | ⟨c, _ | ⟨d, rest⟩⟩ := rest
      · exact ⟨.nil, rfl, rfl⟩
      · rw [List.length_singleton] at length
        omega
      · exact (other c d rest rfl).elim

/-- A hex literal is read as its digits say, and every other text is refused. -/
def HexRight (s : Text) : Prop :=
  (EvenHex s → valueFromSql (.hexStringLiteral s) = .ok (.blob (spelled s)) ∧
    hex [.blob (spelled s)] = .text (Text.toAsciiUppercase s)) ∧
  (¬ EvenHex s → ∃ e, valueFromSql (.hexStringLiteral s) = Outcome.err e)

/-- The text has an odd number of bytes, or is an even number of digits, or has a refused pair
behind accepted ones. -/
def HexDecided (s : Text) : Prop :=
  EvenHex s ∨ Text.byteLength s % 2 ≠ 0 ∨
    ∃ front rest b, s = front ++ rest ∧ Spells front b ∧ RefusedPair rest

theorem valueFromSql_hex (s : Text) :
    valueFromSql (.hexStringLiteral s) =
      if Text.byteLength s % 2 ≠ 0 then Outcome.err (.type "odd-length hex literal".toList)
      else do return .blob (← hexPairs s s) := by
  rw [valueFromSql, decodeHex, ← Text.byteLength]
  split
  · rfl
  · rfl

theorem hexRight_of_even {s : Text} (even : EvenHex s) : HexRight s := by
  obtain ⟨spells, shown, sizes⟩ := even.spells
  refine ⟨fun _ => ⟨?_, ?_⟩, fun odd => (odd even).elim⟩
  · have pairs := @hexPairs_append s _ [] _ spells
    rw [List.append_nil] at pairs
    rw [valueFromSql_hex, sizes, if_neg (not_not_intro even.1), pairs, hexPairs, Outcome.ok_bind,
      List.append_nil]
    rfl
  · rw [hex, shown]

/-- Reading a hex literal is right exactly when no pair with a sign is accepted and no character
is cut before a pair is refused. -/
theorem hexLiteral_exact (s : Text) : HexRight s ↔ HexDecided s := by
  by_cases even : EvenHex s
  · exact iff_of_true (hexRight_of_even even) (.inl even)
  have right : HexRight s ↔ ∃ e, valueFromSql (.hexStringLiteral s) = Outcome.err e :=
    ⟨fun held => held.2 even, fun held => ⟨fun absurd => (even absurd).elim, fun _ => held⟩⟩
  rw [right, valueFromSql_hex]
  by_cases odd : Text.byteLength s % 2 ≠ 0
  · rw [if_pos odd]
    exact iff_of_true ⟨_, rfl⟩ (.inr (.inl odd))
  · rw [if_neg odd]
    constructor
    · rintro ⟨e, failed⟩
      rcases hexPairs_cases s s with ⟨b, -, run⟩ | ⟨front, rest, b, same, spells, refused, -⟩ |
        ⟨reason, run⟩
      · rw [run] at failed
        cases failed
      · exact .inr (.inr ⟨front, rest, b, same, spells, refused⟩)
      · rw [run] at failed
        cases failed
    · rintro (absurd | absurd | ⟨front, rest, b, same, spells, refused⟩)
      · exact (even absurd).elim
      · exact (odd absurd).elim
      · have run : hexPairs s s = Outcome.err (invalidHex s) := by
          conv => lhs; arg 2; rw [same]
          rw [hexPairs_append spells, hexPairs_refused refused]
          rfl
        rw [run]
        exact ⟨_, rfl⟩

/-- `x'+f'` -/
theorem hexLiteral_plus : ¬ HexRight "+f".toList := by
  intro right
  obtain ⟨e, failed⟩ := right.2 fun even => absurd (even.2 '+' List.mem_cons_self) (by decide)
  cases failed

end Squrust.Sql
