import Mathlib.Algebra.Ring.Nat
import Mathlib.Data.Nat.Log
import Squrust.Foundation.MachineIntegers
import Squrust.Foundation.Text

/-!
# Doubles

A double is its 64 bits. Arithmetic is that of the model of IEEE binary64 that
comes with Lean, which keeps one NaN only; here the bits of a NaN that is stored
are kept, and only a computed NaN is the one of the model.

Integers of magnitude at most 2^53 are doubles, and doubles order them as they
are ordered (`partialCmp_ofInt`).
-/

set_option autoImplicit false

namespace Squrust.Foundation

open Float.Model (UnpackedFloat Format)

/-- A double, as its bits. -/
structure Float64 where
  bits : UInt64
deriving DecidableEq, Repr

namespace Float64

def model (x : Float64) : Float.Model := .ofBits x.bits

def ofModel (value : Float.Model) : Float64 := ⟨value.toBits⟩

/-- Sign, digits and exponent, or what is not a number. -/
def unpack (x : Float64) : UnpackedFloat := x.model.unpack

def pack (value : UnpackedFloat) : Float64 := ofModel (.pack value)

/-- The nearest double. -/
def ofInt (n : Int) : Float64 := ofModel (.ofInt n)

instance : OfNat Float64 0 := ⟨⟨0⟩⟩

/-- `1.0` -/
def one : Float64 := ofInt 1

def nan : Float64 := ⟨0x7ff8000000000000⟩

def infinity : Float64 := ⟨0x7ff0000000000000⟩

/-- A number written with a point: its digits, and how many of them stand behind the point. -/
instance : OfScientific Float64 :=
  ⟨fun digits behind places =>
    ofModel (.ofScientific digits (if behind then -(places : Int) else places))⟩

instance : Add Float64 := ⟨fun x y => ofModel (x.model + y.model)⟩

instance : Sub Float64 := ⟨fun x y => ofModel (x.model - y.model)⟩

instance : Mul Float64 := ⟨fun x y => ofModel (x.model * y.model)⟩

instance : Div Float64 := ⟨fun x y => ofModel (x.model / y.model)⟩

/-- The other sign bit. -/
def neg (x : Float64) : Float64 := ⟨x.bits ^^^ 0x8000000000000000⟩

instance : Neg Float64 := ⟨neg⟩

def partialCmp (x y : Float64) : Option Ordering := x.model.compare y.model

/-- `x < y` -/
def lt (x y : Float64) : Bool := x.partialCmp y == some .lt

/-- `x <= y` -/
def le (x y : Float64) : Bool := x.partialCmp y == some .lt || x.partialCmp y == some .eq

/-- `x == 0.0`, also for the negative zero. -/
def isZero (x : Float64) : Bool := x.partialCmp 0 == some .eq

def isFinite (x : Float64) : Bool := x.model.isFinite

def isNan (x : Float64) : Bool := x.model.isNaN

/-- `x < 0.0` -/
def isNegative (x : Float64) : Bool := x.partialCmp 0 == some .lt

/-- `as i64`: towards zero, NaN to zero, and the nearest bound when out of range. -/
def toInt64 (x : Float64) : Int64 := x.model.toInt64

/-- Without the part behind the point. -/
def trunc (x : Float64) : Float64 :=
  match x.unpack with
  | .finite sign mantissa exponent _ =>
      let whole := UnpackedFloat.roundToInt sign mantissa exponent
      if whole = 0 then pack (.zero sign) else ofInt whole
  | _ => x

/-- The part behind the point. -/
def fract (x : Float64) : Float64 := x - x.trunc

/-- `x % y`: the exact remainder of the quotient cut towards zero. -/
def rem (x y : Float64) : Float64 :=
  match x.unpack, y.unpack with
  | .notANumber, _ | _, .notANumber | .infinity _, _ | _, .zero _ => nan
  | .zero _, _ | _, .infinity _ => x
  | .finite sign mantissa exponent _, .finite _ mantissa' exponent' _ =>
      let least := min exponent exponent'
      let (whole, _) := UnpackedFloat.decreaseExponent mantissa exponent least
      let (whole', _) := UnpackedFloat.decreaseExponent mantissa' exponent' least
      pack (UnpackedFloat.normalize Format.binary64 (sign.apply (whole % whole' : Nat)) least sign)

instance : Mod Float64 := ⟨rem⟩

/-! ## Reading and writing decimal numbers -/

/-- Digits at the front, and the rest. -/
def takeDigits (text : Text) : Text × Text := text.span Text.isAsciiDigit

/-- An exponent behind `e`, and nothing else. -/
def readExponent : Text → Option Int
  | [] => some 0
  | e :: rest =>
      if e = 'e' ∨ e = 'E' then
        match rest with
        | '-' :: digits => (Text.readNat digits).map fun n => - (n : Int)
        | '+' :: digits => (Text.readNat digits).map fun n => (n : Int)
        | digits => (Text.readNat digits).map fun n => (n : Int)
      else none

/-- A number without a sign. -/
def parseUnsigned (text : Text) : Option Float64 :=
  let lower := Text.toAsciiLowercase text
  if lower = "inf".toList ∨ lower = "infinity".toList then some infinity
  else if lower = "nan".toList then some nan
  else
    let (whole, rest) := takeDigits text
    let (fraction, rest) : Text × Text :=
      match rest with
      | '.' :: behind => takeDigits behind
      | _ => ([], rest)
    if whole = [] ∧ fraction = [] then none
    else (readExponent rest).map fun exponent =>
      ofModel (.ofScientific (Text.digitsFrom 0 (whole ++ fraction)) (exponent - fraction.length))

/-- `parse::<f64>()` -/
def parse : Text → Option Float64
  | '-' :: digits => (parseUnsigned digits).map Neg.neg
  | '+' :: digits => parseUnsigned digits
  | digits => parseUnsigned digits

/-- The digits of a number, without zeros at the end. -/
def digitsOf (n : Nat) : Text := Text.trimEndMatches (· = '0') (Nat.toDigits 10 n)

/-- The decimal exponent of the leading digit of `num / den`. -/
def leadingExponent (num den : Nat) : Int :=
  if den ≤ num then Nat.log 10 (num / den)
  else - (1 + Nat.log 10 ((den - 1) / num) : Nat)

/-- The decimals of `count` digits next to `num / den` that are read as the double again, the
nearest first. -/
def candidates (x : Float64) (num den : Nat) (exponent : Int) (count : Nat) : List Nat :=
  -- The number, scaled to have `count` digits before the point.
  let shift := (count : Int) - 1 - exponent
  let num := if 0 ≤ shift then num * 10 ^ shift.toNat else num
  let den := if 0 ≤ shift then den else den * 10 ^ (-shift).toNat
  let below := num / den
  let sides := if 2 * (num % den) ≤ den then [below, below + 1] else [below + 1, below]
  sides.filter fun digits => ofModel (.ofScientific digits (-shift)) = x

/-- The shortest digits that are read as a positive double again, and the decimal exponent of the
first one: what `{:e}` writes. -/
def shortest (x : Float64) : Text × Int :=
  match x.unpack with
  | .finite _ mantissa exponent _ =>
      let num := if 0 ≤ exponent then mantissa * 2 ^ exponent.toNat else mantissa
      let den := if 0 ≤ exponent then 1 else 2 ^ (-exponent).toNat
      let leading := leadingExponent num den
      match (List.range 18).findSome? fun count =>
          ((candidates x num den leading count).head?.filter fun _ => 0 < count).map (count, ·) with
      | some (count, digits) =>
          (digitsOf digits, if digits = 10 ^ count then leading + 1 else leading)
      | none => ([], 0)
  | _ => ([], 0)

example : (parse "-12.5e1".toList).map toInt64 = some (-125) := by decide +kernel

example : (parse "123.456".toList).map shortest = some ("123456".toList, 2) := by decide +kernel

/-! ## Equality -/

theorem then_eq_symm {e e' : Int} {m m' : Nat} (both : (compare e e').then (compare m m') = .eq) :
    (compare e' e).then (compare m' m) = .eq := by
  obtain ⟨exponents, mantissas⟩ := Ordering.then_eq_eq.mp both
  rw [compare_eq_iff_eq.mp exponents, compare_eq_iff_eq.mp mantissas]
  simp

/-- Equality of unpacked numbers is symmetric. -/
theorem unpacked_eq_symm {x y : UnpackedFloat} (same : x.compare y = some .eq) :
    y.compare x = some .eq := by
  cases x with
  | notANumber => cases y <;> cases same
  | infinity s =>
      cases y with
      | infinity s' =>
          cases s <;> cases s' <;> first | rfl | cases same
      | _ => cases s <;> cases same
  | zero s =>
      cases y with
      | zero s' => rfl
      | infinity s' => cases s' <;> cases same
      | finite s' => cases s' <;> cases same
      | notANumber => cases same
  | finite s m e p =>
      cases y with
      | finite s' m' e' p' =>
          cases s with
          | positive =>
              cases s' with
              | positive => exact congrArg some (then_eq_symm (Option.some.inj same))
              | negative => cases same
          | negative =>
              cases s' with
              | positive => cases same
              | negative =>
                  have back := then_eq_symm (Ordering.swap_eq_eq.mp (Option.some.inj same))
                  exact congrArg (fun ord => some (Ordering.swap ord)) back
      | infinity s' => cases s <;> cases s' <;> cases same
      | zero s' => cases s <;> cases same
      | notANumber => cases s <;> cases same

theorem partialCmp_eq_symm {x y : Float64} (same : x.partialCmp y = some .eq) :
    y.partialCmp x = some .eq :=
  unpacked_eq_symm same

end Float64

end Squrust.Foundation
