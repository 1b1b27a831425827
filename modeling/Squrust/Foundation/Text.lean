import Mathlib.Algebra.Ring.Int.Defs
import Mathlib.Tactic.Common

/-!
# Text

Text is a list of characters. Here is what code does to the ends of a text and
to numbers in it: trimming, cutting at a character, ASCII case, and reading a
decimal number of 64 bits.
-/

set_option autoImplicit false

namespace Squrust.Foundation

/-- A text, as its characters. -/
abbrev Text := List Char

namespace Text

/-- The characters that Unicode calls white space. -/
def isWhitespace (c : Char) : Bool :=
  let n := c.toNat
  (9 ≤ n && n ≤ 13) || n == 0x20 || n == 0x85 || n == 0xA0 || n == 0x1680 ||
    (0x2000 ≤ n && n ≤ 0x200A) || n == 0x2028 || n == 0x2029 || n == 0x202F || n == 0x205F || n == 0x3000

/-- The ASCII characters among them, without the vertical tab. -/
def isAsciiWhitespace (c : Char) : Bool :=
  c == ' ' || c == '\t' || c == '\n' || c == '\r' || c.toNat == 12

/-- Drop characters at the end. -/
def trimEndMatches (drops : Char → Bool) (text : Text) : Text :=
  (text.reverse.dropWhile drops).reverse

def trimStart (text : Text) : Text := text.dropWhile isWhitespace

def trimEnd (text : Text) : Text := trimEndMatches isWhitespace text

def trim (text : Text) : Text := trimEnd (trimStart text)

/-- Letters `a` to `z` become `A` to `Z`. -/
def asciiUpper (c : Char) : Char :=
  if 'a' ≤ c ∧ c ≤ 'z' then Char.ofNat (c.toNat - 32) else c

/-- Letters `A` to `Z` become `a` to `z`. -/
def asciiLower (c : Char) : Char :=
  if 'A' ≤ c ∧ c ≤ 'Z' then Char.ofNat (c.toNat + 32) else c

def toAsciiUppercase (text : Text) : Text := text.map asciiUpper

def toAsciiLowercase (text : Text) : Text := text.map asciiLower

/-- What stands before and behind the first character of some kind. -/
def splitAtFirst (cuts : Char → Bool) (text : Text) : Option (Text × Text) :=
  match text.dropWhile fun c => !cuts c with
  | [] => none
  | _ :: behind => some (text.takeWhile (fun c => !cuts c), behind)

/-- What stands before and behind the last one. -/
def splitAtLast (cuts : Char → Bool) (text : Text) : Option (Text × Text) :=
  (splitAtFirst cuts text.reverse).map fun parts => (parts.2.reverse, parts.1.reverse)

/-! ## Numbers -/

def isAsciiDigit (c : Char) : Bool := '0' ≤ c && c ≤ '9'

/-- The number that digits stand for, behind a number already read. -/
def digitsFrom (start : Nat) (digits : Text) : Nat :=
  digits.foldl (fun value c => 10 * value + (c.toNat - 48)) start

/-- Digits, at least one, and nothing else. -/
def readNat (digits : Text) : Option Nat :=
  if digits = [] then none
  else if digits.all isAsciiDigit then some (digitsFrom 0 digits)
  else none

/-- `parse::<i64>()`: an optional sign and digits, in the range of the type. -/
def readI64 (text : Text) : Option Int :=
  let signed : Option Int :=
    match text with
    | '-' :: digits => (readNat digits).map fun n => - (n : Int)
    | '+' :: digits => (readNat digits).map fun n => (n : Int)
    | digits => (readNat digits).map fun n => (n : Int)
  signed.filter fun n => -2 ^ 63 ≤ n ∧ n < 2 ^ 63

end Text

end Squrust.Foundation
