import Mathlib.Data.List.Basic
import Squrust.Foundation.Float64
import Squrust.Foundation.Utf8

/-!
# Values

What a column can hold, how values are compared, converted for a column and
written as text. Numbers are compared as doubles. A JSON document is its text,
as it is written.
-/

set_option autoImplicit false

namespace Squrust.Sql

open Squrust.Foundation

/-- Declared and affinity types. -/
inductive SqlType where
  | null
  | integer
  | real
  | text
  | blob
  | boolean
  | json
deriving DecidableEq, Repr

/-- A value. -/
inductive Value where
  | null
  | integer (i : Int64)
  | real (r : Float64)
  | text (t : Text)
  | blob (b : Bytes)
  | boolean (b : Bool)
  | json (j : Text)
deriving DecidableEq, Repr

namespace SqlType

/-- A text occurs in another one. -/
def contains (text part : Text) : Bool := text.tails.any part.isPrefixOf

/-- The affinity of a declared type, by what occurs in it. -/
def affinityFromDecl (decl : Text) : SqlType :=
  let d := Text.toAsciiUppercase decl
  if contains d "INT".toList then integer
  else if contains d "CHAR".toList ∨ contains d "CLOB".toList ∨ contains d "TEXT".toList then text
  else if contains d "BLOB".toList ∨ d = [] then blob
  else if contains d "REAL".toList ∨ contains d "FLOA".toList ∨ contains d "DOUB".toList then real
  else if contains d "BOOL".toList then boolean
  else if contains d "JSON".toList then json
  else integer

end SqlType

/-- Bits as a number. -/
def bit (b : Bool) : Int64 := if b then 1 else 0

/-- `i as f64` -/
def asDouble (i : Int64) : Float64 := Float64.ofInt i.toInt

/-- `str.parse::<i64>()` -/
def parseI64 (text : Text) : Option Int64 := (Text.readI64 text).map Int64.ofInt

/-- A number in decimal digits. -/
def displayInt (i : Int64) : Text :=
  (if i < 0 then ['-'] else []) ++ Nat.toDigits 10 i.toInt.natAbs

/-! ## Reals as text -/

/-- At least two digits. -/
def twoDigits (n : Nat) : Text := if n < 10 then '0' :: Nat.toDigits 10 n else Nat.toDigits 10 n

def formatRealExp (digits : Text) (exp : Int) : Text :=
  let frac := if digits.drop 1 = [] then ['0'] else digits.drop 1
  digits.take 1 ++ ['.'] ++ frac ++ ['e', if exp < 0 then '-' else '+'] ++ twoDigits exp.natAbs

def formatRealFixed (digits : Text) (exp : Int) : Text :=
  if 0 ≤ exp then
    let intLen := (exp + 1).toNat
    if digits.length ≤ intLen then
      digits ++ List.replicate (intLen - digits.length) '0' ++ ".0".toList
    else digits.take intLen ++ ['.'] ++ digits.drop intLen
  else "0.".toList ++ List.replicate (-exp - 1).toNat '0' ++ digits

/-- A double, with an exponent when it is below -4 or above 16. -/
def formatReal (r : Float64) : Text :=
  if r.isZero then "0.0".toList
  else if r.isNan then []
  else if ¬ r.isFinite then if r.isNegative then "-Inf".toList else "Inf".toList
  else
    let (digits, exp) := (if r.isNegative then -r else r).shortest
    let body := if -4 ≤ exp ∧ exp ≤ 16 then formatRealFixed digits exp else formatRealExp digits exp
    if r.isNegative then '-' :: body else body

namespace Value

def isNull : Value → Bool
  | null => true
  | _ => false

/-- Truth in a condition: numbers other than zero are true. -/
def isTruthy : Value → Bool
  | null => false
  | boolean b => b
  | integer i => i ≠ 0
  | real r => !r.isZero
  | text t => t ≠ [] && ((Float64.parse t).map fun n => !n.isZero).getD false
  | blob b => b ≠ []
  | json _ => true

/-- The value as a double, if it can be read as one. -/
def asF64 : Value → Option Float64
  | integer i => some (asDouble i)
  | real r => some r
  | boolean b => some (if b then Float64.one else 0)
  | text t => Float64.parse t
  | _ => none

def asI64 : Value → Option Int64
  | integer i => some i
  | real r => some r.toInt64
  | boolean b => some (bit b)
  | text t => parseI64 t
  | _ => none

/-- The text of a value. -/
def toDisplayString : Value → Text
  | null => []
  | integer i => displayInt i
  | real r => formatReal r
  | text t => t
  | boolean b => if b then ['1'] else ['0']
  | blob b => Text.fromUtf8Lossy b
  | json j => j

/-! ## Comparison -/

/-- The value as a double, if it is a number. -/
def numericOnly : Value → Option Float64
  | integer i => some (asDouble i)
  | real r => some r
  | boolean b => some (if b then Float64.one else 0)
  | _ => none

/-- Numbers are before texts, texts before blobs. -/
def classRank : Value → Nat
  | null => 0
  | integer _ | real _ | boolean _ => 1
  | text _ | json _ => 2
  | blob _ => 3

/-- NULL is not compared with anything but NULL. -/
def compare (self other : Value) : Option Ordering :=
  match self, other with
  | null, null => some .eq
  | null, _ => none
  | _, null => none
  | _, _ =>
      match self.numericOnly, other.numericOnly with
      | some a, some b => a.partialCmp b
      | _, _ =>
          match self, other with
          | text a, text b => some (Ord.compare a b)
          | blob a, blob b => some (Ord.compare a b)
          | _, _ => some (Ord.compare self.classRank other.classRank)

/-- `==` -/
def eq (self other : Value) : Bool := self.compare other == some .eq

/-- The order of ORDER BY: NULL first, and what cannot be compared is equal. -/
def orderKey (self other : Value) : Ordering :=
  match self, other with
  | null, null => .eq
  | null, _ => .lt
  | _, null => .gt
  | _, _ => (self.compare other).getD .eq

/-! ## Affinity -/

/-- An integer for a column of integers, or of reals. -/
def asIntIf (integerPref : Bool) (i : Int64) : Value :=
  if integerPref then integer i else real (asDouble i)

/-- A double that is a whole number in range is an integer in a column of integers. -/
def realToValue (integerPref : Bool) (r : Float64) : Value :=
  if integerPref ∧ r.isFinite ∧ r.fract.isZero ∧
      ((asDouble Int64.minValue).partialCmp r).any Ordering.isLE ∧
      (r.partialCmp (asDouble Int64.maxValue)).any Ordering.isLE then
    integer r.toInt64
  else real r

def applyNumeric (v : Value) (integerPref : Bool) : Value :=
  match v with
  | integer i => asIntIf integerPref i
  | boolean b => asIntIf integerPref (bit b)
  | real r => realToValue integerPref r
  | text t =>
      match parseI64 (Text.trim t) with
      | some i => asIntIf integerPref i
      | none =>
          match Float64.parse (Text.trim t) with
          | some r => realToValue integerPref r
          | none => text t
  | other => other

end Value

end Squrust.Sql
