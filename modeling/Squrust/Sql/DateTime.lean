import Squrust.Foundation.ByteSlices
import Squrust.Sql.Value

/-!
# Date and time functions

`date`, `time`, `datetime`, `julianday`, `unixepoch` and `strftime`. A time string is
read to a date, a time of day or a Julian day in milliseconds (`DateTime.build`), which modifiers
change one after the other; each of the three is computed from the others when it is
asked for.

Numbers are those of the code's `i64`: a sum or a product out of range panics (`i64`).
Indices and slices of the texts panic where those of the code do. A modifier is read
first (`readModifier`) and then applied (`applyModifier`).
-/

set_option autoImplicit false

namespace Squrust.Sql

open Squrust.Foundation

/-! ## Numbers -/

/-- A result of `i64` arithmetic, which panics when it overflows. -/
def i64 (n : Int) : Outcome Empty Int :=
  if -2 ^ 63 ≤ n ∧ n < 2 ^ 63 then .ok n else Outcome.panic "attempt to compute with overflow"

/-- A result of `u8` arithmetic. -/
def u8 (n : Int) : Outcome Empty Int :=
  if 0 ≤ n ∧ n < 2 ^ 8 then .ok n else Outcome.panic "attempt to compute with overflow"

/-- `x as i64` -/
def asI64 (x : Float64) : Int := x.toInt64.toInt

/-- `(low..high).contains(&x)` -/
def within (low high x : Float64) : Bool := low.le x && x.lt high

/-- `{:0width}` -/
def padZeros (width : Nat) (n : Int) : Text :=
  let digits := Nat.toDigits 10 n.natAbs
  let sign := if n < 0 then ['-'] else []
  sign ++ List.replicate (width - sign.length - digits.length) '0' ++ digits

/-- `{:width}` -/
def padBlanks (width : Nat) (n : Int) : Text :=
  let digits := (if n < 0 then ['-'] else []) ++ Nat.toDigits 10 n.natAbs
  List.replicate (width - digits.length) ' ' ++ digits

/-- A quotient, rounded to the nearest and to the even in the middle. -/
def roundedQuotient (num den : Nat) : Nat :=
  if 2 * (num % den) < den then num / den
  else if 2 * (num % den) = den then num / den + num / den % 2
  else num / den + 1

/-- The magnitude of a finite double, as a quotient. -/
def quotientOf (mantissa : Nat) (exponent : Int) : Nat × Nat :=
  if 0 ≤ exponent then (mantissa * 2 ^ exponent.toNat, 1) else (mantissa, 2 ^ (-exponent).toNat)

/-- Digits, with the point in front of the last ones. -/
def withPoint (places digits : Nat) : Text :=
  let front := Nat.toDigits 10 (digits / 10 ^ places)
  let behind := Nat.toDigits 10 (digits % 10 ^ places)
  if places = 0 then front
  else front ++ ['.'] ++ List.replicate (places - behind.length) '0' ++ behind

/-- The sign of a double that is written. -/
def signText (sign : Float.Model.UnpackedFloat.Sign) : Text :=
  match sign with
  | .negative => ['-']
  | .positive => []

/-- `{:.places}` -/
def formatFixed (places : Nat) (x : Float64) : Text :=
  match x.unpack with
  | .notANumber => "NaN".toList
  | .infinity sign => signText sign ++ "inf".toList
  | .zero sign => signText sign ++ withPoint places 0
  | .finite sign mantissa exponent _ =>
      let (num, den) := quotientOf mantissa exponent
      signText sign ++ withPoint places (roundedQuotient (num * 10 ^ places) den)

/-- `{:.places$e}` of a number that is not zero. -/
def formatExp (places : Nat) (x : Float64) : Text :=
  match x.unpack with
  | .finite sign mantissa exponent _ =>
      let (num, den) := quotientOf mantissa exponent
      let leading := Float64.leadingExponent num den
      let shift := (places : Int) - leading
      let digits :=
        if 0 ≤ shift then roundedQuotient (num * 10 ^ shift.toNat) den
        else roundedQuotient num (den * 10 ^ (-shift).toNat)
      let (digits, leading) :=
        if digits = 10 ^ (places + 1) then (10 ^ places, leading + 1) else (digits, leading)
      signText sign ++ withPoint places digits ++ ['e'] ++ padZeros 1 leading
  | _ => formatFixed places x

/-! ## The machine -/

/-- What the functions ask the machine for. -/
structure Machine where
  /-- Milliseconds since 1970, or none when the clock stands before it. -/
  now : Option Nat
  /-- The clock stands before the year 146,000,000. -/
  inReach : ∀ millis ∈ now, millis < 2 ^ 62
  /-- `v.abs().log10().floor() as i32` -/
  log10 : Float64 → Int

/-- A machine whose clock stands still. -/
def stillMachine : Machine := ⟨some 0, fun _ same => by rw [← Option.some.inj same]; decide, fun _ => 0⟩

/-! ## Dates and times -/

/-- The Julian day of 1970-01-01 in milliseconds. -/
def unixEpochMs : Int := 210866760000000

/-- The Julian day just behind the year 9999 in milliseconds. -/
def maxIjd : Int := 464269060800000

/-- Numbers from it on are no Julian days. -/
def maxRawJd : Float64 := 5373484.5

structure DateTime where
  ijd : Int
  y : Int
  m : Int
  d : Int
  h : Int
  min : Int
  s : Float64
  /-- The number that the time string was. -/
  rawS : Option Float64
  validJd : Bool
  validYmd : Bool
  validHms : Bool
  useSubsec : Bool
  error : Bool

namespace DateTime

def blank : DateTime where
  ijd := 0
  y := 0
  m := 0
  d := 0
  h := 0
  min := 0
  s := 0
  rawS := none
  validJd := false
  validYmd := false
  validHms := false
  useSubsec := false
  error := false

/-- The Julian day of a date, in milliseconds. -/
def daysToMs (y m d : Int) : Outcome Empty Int := do
  let y' ← i64 (if m ≤ 2 then y - 1 else y)
  let m' ← i64 (if m ≤ 2 then m + 12 else m)
  let a := (← i64 (y' + 4800)).tdiv 100
  let b ← i64 ((← i64 (38 - a)) + a.tdiv 4)
  let x1 := (← i64 (36525 * (← i64 (y' + 4716)))).tdiv 100
  let x2 := (← i64 (306001 * (← i64 (m' + 1)))).tdiv 10000
  let days ← i64 ((← i64 ((← i64 (x1 + x2)) + d)) + b)
  return asI64 ((Float64.ofInt days - 1524.5) * 86400000.0)

/-- The time of day in milliseconds. -/
def timeToMs (h min : Int) (s : Float64) : Outcome Empty Int := do
  let hours ← i64 (h * 3600000)
  let minutes ← i64 (min * 60000)
  i64 ((← i64 (hours + minutes)) + asI64 (s * 1000.0 + 0.5))

/-- The date, or the one that stands for none. -/
def ymd (p : DateTime) : Int × Int × Int := if p.validYmd then (p.y, p.m, p.d) else (2000, 1, 1)

/-- The Julian day cannot be computed. -/
def stuck (p : DateTime) : Bool := !(-4713 ≤ p.ymd.1 && p.ymd.1 ≤ 9999) || p.rawS.isSome

def computeJd (p : DateTime) : Outcome Empty DateTime :=
  if p.validJd then .ok p
  else if p.stuck then .ok { p with error := true }
  else do
    let ijd ← daysToMs p.ymd.1 p.ymd.2.1 p.ymd.2.2
    if p.validHms then
      return { p with ijd := ← i64 (ijd + (← timeToMs p.h p.min p.s)), validJd := true }
    return { p with ijd, validJd := true }

/-- The day `z`, counted without the days that are left out at the ends of centuries: `b`. -/
def countB (z : Int) : Outcome Empty Int := do
  let alpha ← i64 (asI64 ((Float64.ofInt z + 32044.75) / 36524.25) - 52)
  let quarter := (← i64 (alpha + 100)).tdiv 4
  let a ← i64 ((← i64 ((← i64 ((← i64 (z + 1)) + alpha)) - quarter)) + 25)
  i64 (a + 1524)

/-- The year `c` of a day `b`. -/
def yearC (b : Int) : Int := asI64 ((Float64.ofInt b - 122.1) / 365.25)

/-- The month `e` of a day of the year. -/
def monthE (rest : Int) : Int := asI64 (Float64.ofInt rest / 30.6001)

/-- The days `x1` in front of a month. -/
def daysX1 (e : Int) : Int := asI64 (30.6001 * Float64.ofInt e)

/-- The date of a Julian day in milliseconds. `c & 32767` is the remainder. -/
def msToDate (ijd : Int) : Outcome Empty (Int × Int × Int) := do
  let z := (← i64 (ijd + 43200000)).tdiv 86400000
  let b ← countB z
  let c := yearC b
  let dd := (← i64 (36525 * (c % 32768))).tdiv 100
  let rest ← i64 (b - dd)
  let e := monthE rest
  let d ← i64 (rest - daysX1 e)
  let m ← i64 (if e < 14 then e - 1 else e - 13)
  let y ← i64 (if 2 < m then c - 4716 else c - 4715)
  return (y, m, d)

def computeYmd (p : DateTime) : Outcome Empty DateTime :=
  if p.validYmd then .ok p
  else if !p.validJd then .ok { p with y := 2000, m := 1, d := 1, validYmd := true }
  else do
    let (y, m, d) ← msToDate p.ijd
    return { p with y, m, d, validYmd := true }

/-- `rem_euclid` is the remainder that is not negative. -/
def computeHms (p : DateTime) : Outcome Empty DateTime :=
  if p.validHms then .ok p
  else do
    let p ← p.computeJd
    let dayMs := (← i64 (p.ijd + 43200000)) % 86400000
    let dayMin := dayMs / 60000
    return { p with
      s := Float64.ofInt (dayMs % 60000) / 1000.0
      min := dayMin % 60
      h := dayMin / 60
      rawS := none
      validHms := true }

def computeYmdHms (p : DateTime) : Outcome Empty DateTime := do
  (← p.computeYmd).computeHms

def clearDerived (p : DateTime) : DateTime := { p with validYmd := false, validHms := false }

def daysAfterSunday (p : DateTime) : Outcome Empty Int := do
  return ((← i64 (p.ijd + 129600000)).tdiv 86400000).tmod 7

def daysAfterMonday (p : DateTime) : Outcome Empty Int := do
  return ((← i64 (p.ijd + 43200000)).tdiv 86400000).tmod 7

/-- The Thursday of the week. -/
def isoThursday (p : DateTime) : Outcome Empty DateTime := do
  let days ← i64 (3 - (← p.daysAfterMonday))
  let ijd ← i64 (p.ijd + (← i64 (days * 86400000)))
  computeYmd { p with ijd, validYmd := false }

def daysAfterJan01 (p : DateTime) : Outcome Empty Int := do
  let jan01 ← computeJd { p with validJd := false, m := 1, d := 1 }
  return (← i64 ((← i64 (p.ijd - jan01.ijd)) + 43200000)).tdiv 86400000

/-- A number is a Julian day, or a time in seconds as a modifier will say. -/
def setRawNumber (p : DateTime) (r : Float64) : DateTime :=
  if within 0.0 maxRawJd r then
    { p with rawS := some r, ijd := asI64 (r * 86400000.0 + 0.5), validJd := true }
  else { p with rawS := some r }

/-- `as_millis() as i64` keeps the low 64 bits. -/
def setToCurrent (machine : Machine) (p : DateTime) : Outcome Empty DateTime := do
  let millis := (machine.now.map fun millis => (Int64.ofNat millis).toInt).getD 0
  return { p with ijd := ← i64 (millis + unixEpochMs), validJd := true }

end DateTime

/-! ## Time strings -/

/-- `bytes[i]` -/
def byteAt (bytes : Bytes) (i : Nat) : Outcome Empty UInt8 :=
  Outcome.orPanic "index out of bounds" bytes[i]?

/-- `is_ascii_digit` of a byte. -/
def isDigitByte (b : UInt8) : Bool := 48 ≤ b && b ≤ 57

/-- Two digits, as a number. -/
def pairAt (bytes : Bytes) (i : Nat) : Outcome Empty Int := do
  let tens ← u8 ((← byteAt bytes i).toNat - 48)
  let ones ← u8 ((← byteAt bytes (i + 1)).toNat - 48)
  u8 ((← u8 (tens * 10)) + ones)

/-- The digits behind the point: as a number, the power of ten to divide it by, their count. -/
def readFraction : Bytes → Float64 × Float64 × Nat → Float64 × Float64 × Nat
  | [], read => read
  | c :: rest, (frac, scale, consumed) =>
      if isDigitByte c then
        readFraction rest (frac * 10.0 + Float64.ofInt (c.toNat - 48 : Nat), scale * 10.0, consumed + 1)
      else (frac, scale, consumed)

/-- The seconds behind the second colon, and what is left. -/
def parseSeconds (after : Text) : Outcome Empty (Option (Float64 × Text)) := do
  let ab := Text.toUtf8 after
  if ab.length < 2 then return none
  if !isDigitByte (← byteAt ab 0) then return none
  if !isDigitByte (← byteAt ab 1) then return none
  let sec ← pairAt ab 0
  let rest ← Text.sliceFrom after 2
  match Text.stripPrefix ['.'] rest with
  | none => return some (Float64.ofInt sec + 0.0, rest)
  | some dot =>
      let (frac, scale, consumed) := readFraction (Text.toUtf8 dot) (0.0, 1.0, 0)
      if consumed = 0 then return some (Float64.ofInt sec + 0.0, rest)
      let frac := frac / scale
      let frac := if Float64.lt 0.999 frac then 0.999 else frac
      return some (Float64.ofInt sec + frac, ← Text.sliceFrom rest (1 + consumed))

/-- `HH:MM`, `HH:MM:SS` or `HH:MM:SS.FFF`, and what is left. -/
def parseHhMmSs (z : Text) : Outcome Empty (Option (Int × Int × Float64 × Text)) := do
  let bytes := Text.toUtf8 z
  if bytes.length < 5 then return none
  if !isDigitByte (← byteAt bytes 0) then return none
  if !isDigitByte (← byteAt bytes 1) then return none
  if (← byteAt bytes 2) ≠ 58 then return none
  if !isDigitByte (← byteAt bytes 3) then return none
  if !isDigitByte (← byteAt bytes 4) then return none
  let h ← pairAt bytes 0
  let m ← pairAt bytes 3
  let rest ← Text.sliceFrom z 5
  match Text.stripPrefix [':'] rest with
  | none => return some (h, m, 0.0, rest)
  | some after => return (← parseSeconds after).map fun read => (h, m, read.1, read.2)

/-- The digits of a date, and whether there is a sign in front. -/
def readDate (z : Text) : Outcome Empty (Option (Int × Int × Int × Text)) := do
  let neg := (Text.stripPrefix ['-'] z).isSome
  let body := (Text.stripPrefix ['-'] z).getD z
  let b := Text.toUtf8 body
  if b.length < 10 then return none
  let digits ← [0, 1, 2, 3, 5, 6, 8, 9].mapM fun i => do
    let c ← byteAt b i
    return if isDigitByte c then some ((c.toNat - 48 : Nat) : Int) else none
  match digits with
  | [some y0, some y1, some y2, some y3, some m0, some m1, some d0, some d1] =>
      if (← byteAt b 4) ≠ 45 then return none
      if (← byteAt b 7) ≠ 45 then return none
      let y ← i64 (y0 * 1000 + y1 * 100 + y2 * 10 + y3)
      let m ← i64 (m0 * 10 + m1)
      let d ← i64 (d0 * 10 + d1)
      if ¬ (1 ≤ m ∧ m ≤ 12) ∨ ¬ (1 ≤ d ∧ d ≤ 31) then return none
      return some (if neg then -y else y, m, d, ← Text.sliceFrom body 10)
  | _ => return none

/-- `YYYY-MM-DD`, and a time behind blanks and `T`s. -/
def parseYyyyMmDd (z : Text) (p : DateTime) : Outcome Empty (Option DateTime) := do
  match ← readDate z with
  | none => return none
  | some (y, m, d, tail) =>
      let dated := { p with validJd := false, validYmd := true, y, m, d }
      let tail := tail.dropWhile fun c => c == ' ' || c == 'T'
      if tail = [] then return some { dated with validHms := false }
      match ← parseHhMmSs tail with
      | none => return none
      | some (h, min, s, rest) =>
          if rest.dropWhile (· == 'Z') ≠ [] then return none
          return some { dated with validHms := true, h, min, s }

def parseDateOrTime (machine : Machine) (z : Text) (p : DateTime) :
    Outcome Empty (Option DateTime) := do
  let z := Text.trim z
  match ← parseYyyyMmDd z p with
  | some dated => return some dated
  | none =>
      match (← parseHhMmSs z).filter fun read => read.2.2.2.dropWhile (· == 'Z') = [] with
      | some (h, min, s, _) => return some { p with validJd := false, validHms := true, h, min, s }
      | none =>
          if Text.toAsciiLowercase z = "now".toList then return some (← p.setToCurrent machine)
          match Float64.parse z with
          | some r => return some (p.setRawNumber r)
          | none =>
              if Text.toAsciiLowercase z = "subsec".toList ∨
                  Text.toAsciiLowercase z = "subsecond".toList then
                return some (← { p with useSubsec := true }.setToCurrent machine)
              return none

/-! ## Modifiers -/

/-- The units, with the bound of their numbers and their length in seconds. -/
def xform : List (Text × Float64 × Float64) :=
  [("second".toList, 464270000000000.0, 1.0),
    ("minute".toList, 7737900000000.0, 60.0),
    ("hour".toList, 128970000000.0, 3600.0),
    ("day".toList, 5373485.0, 86400.0),
    ("month".toList, 176546.0, 2592000.0),
    ("year".toList, 14713.0, 31536000.0)]

/-- What a modifier says. -/
inductive Modifier where
  | julianday
  | unixepoch
  /-- `utc` and `localtime` -/
  | same
  | subsec
  | weekday (n : Int)
  | startOf (unit : Text)
  /-- A time of day to add, in milliseconds. -/
  | offset (delta : Int)
  /-- A number of units. -/
  | units (idx : Nat) (r rxform : Float64)

/-- Whether the number of a numeric modifier goes on with a character. -/
def goesOn (c : Char) : Bool := Text.isAsciiDigit c || c == '.'

/-- `(+|-)HH:MM[:SS[.FFF]]` -/
def readOffset (z : Text) : Outcome Empty (Option Modifier) := do
  let neg := ['-'].isPrefixOf z
  match ← parseHhMmSs (z.dropWhile fun c => c == '+' || c == '-') with
  | none => return none
  | some (h, m, s, rest) =>
      if rest ≠ [] then return none
      let delta ← DateTime.timeToMs h m s
      return some (.offset (← i64 (if neg then -delta else delta)))

/-- A number and a unit. -/
def readUnits (numStr tail : Text) : Outcome Empty (Option Modifier) := do
  match Float64.parse numStr with
  | none => return none
  | some r =>
      let unit := Text.trim tail
      if unit = [] then return none
      -- A plural is cut by a byte.
      let unit ←
        if 3 ≤ Text.byteLength unit ∧ ['s'].isSuffixOf unit then
          Text.sliceTo unit (Text.byteLength unit - 1)
        else pure unit
      match xform.findIdx? fun entry => entry.1 = unit with
      | none => return none
      | some idx =>
          let (_, limit, rxform) ← Outcome.orPanic "index out of bounds" xform[idx]?
          if !((-limit).lt r && r.lt limit) then return none
          return some (.units idx r rxform)

def readNumericModifier (z : Text) : Outcome Empty (Option Modifier) := do
  let cut := (Text.charIndices z 0).find? fun (i, c) => 0 < i && !goesOn c
  let numEnd := (cut.map Prod.fst).getD (Text.byteLength z)
  let (numStr, tail) ← Text.splitAt z numEnd
  if [':'].isPrefixOf tail then readOffset z else readUnits numStr tail

def readModifier (z : Text) : Outcome Empty (Option Modifier) := do
  let lower := Text.toAsciiLowercase (Text.trim z)
  if lower = "julianday".toList then return some .julianday
  if lower = "unixepoch".toList then return some .unixepoch
  if lower = "utc".toList ∨ lower = "localtime".toList then return some .same
  if lower = "subsec".toList ∨ lower = "subsecond".toList then return some .subsec
  match Text.stripPrefix "weekday ".toList lower with
  | some rest =>
      match Float64.parse (Text.trim rest) with
      | some rf =>
          if within 0.0 7.0 rf && rf.fract.isZero then return some (.weekday (asI64 rf))
          return none
      | none => return none
  | none =>
      match Text.stripPrefix "start of ".toList lower with
      | some unit => return some (.startOf unit)
      | none =>
          let first ← byteAt (Text.toUtf8 lower) 0
          if first = 43 || first = 45 || isDigitByte first then readNumericModifier (Text.trim z)
          else return none

namespace DateTime

/-- The day of the week `n`, at the next time. -/
def toWeekday (p : DateTime) (n : Int) : Outcome Empty DateTime := do
  let p ← p.computeYmdHms
  let p ← computeJd { p with validJd := false }
  let zw := ((← i64 (p.ijd + 129600000)).tdiv 86400000).tmod 7
  let zw ← i64 (if n < zw then zw - 7 else zw)
  let ijd ← i64 (p.ijd + (← i64 ((← i64 (n - zw)) * 86400000)))
  return clearDerived { p with ijd }

/-- The beginning of the month, the year or the day. -/
def toStart (p : DateTime) (unit : Text) : Outcome Empty (Option DateTime) := do
  if !p.validJd && !p.validYmd && !p.validHms then return none
  let p ← p.computeYmd
  let p := { p with validHms := true, h := 0, min := 0, s := 0.0, rawS := none, validJd := false }
  if unit = "month".toList then return some { p with d := 1 }
  if unit = "year".toList then return some { p with m := 1, d := 1 }
  if unit = "day".toList then return some p
  return none

/-- Months, with the years they make up. -/
def addMonths (p : DateTime) (months : Int) : Outcome Empty DateTime := do
  let m ← i64 (p.m + months)
  let x := (← i64 (if 0 < m then m - 1 else m - 12)).tdiv 12
  return { p with y := ← i64 (p.y + x), m := ← i64 (m - (← i64 (x * 12))), validJd := false }

/-- Months and years are counted in the calendar. -/
def addWhole (p : DateTime) (idx : Nat) (r : Float64) : Outcome Empty DateTime := do
  match idx with
  | 4 => (← p.computeYmdHms).addMonths (asI64 r)
  | 5 =>
      let p ← p.computeYmdHms
      return { p with y := ← i64 (p.y + asI64 r), validJd := false }
  | _ => return p

/-- What is left to add, in milliseconds. -/
def unitsToMs (idx : Nat) (r rxform : Float64) : Int :=
  let rounder : Float64 := if r.lt 0.0 then -0.5 else 0.5
  let r := if idx = 4 ∨ idx = 5 then r - r.trunc else r
  asI64 (r * 1000.0 * rxform + rounder)

/-- Add milliseconds to the Julian day. -/
def addMs (p : DateTime) (delta : Int) : Outcome Empty DateTime := do
  let p ← p.computeJd
  return clearDerived { p with ijd := ← i64 (p.ijd + delta) }

def applyModifier (p : DateTime) (idx : Nat) : Modifier → Outcome Empty (Option DateTime)
  | .julianday => .ok <|
      if 1 < idx then none
      else if p.validJd && p.rawS.isSome then some { p with rawS := none }
      else none
  | .unixepoch => .ok <|
      if 1 < idx then none
      else
        (p.rawS.map fun r => r * 1000.0 + Float64.ofInt unixEpochMs).bind fun v =>
          if within 0.0 (Float64.ofInt maxIjd) v then
            some { p.clearDerived with ijd := asI64 (v + 0.5), validJd := true, rawS := none }
          else none
  | .same => .ok (some p)
  | .subsec => .ok (some { p with useSubsec := true })
  | .weekday n => some <$> p.toWeekday n
  | .startOf unit => p.toStart unit
  | .offset delta => some <$> p.addMs delta
  | .units idx r rxform => do
      return some (← (← p.addWhole idx r).addMs (unitsToMs idx r rxform))

end DateTime

def parseModifier (z : Text) (p : DateTime) (idx : Nat) : Outcome Empty (Option DateTime) := do
  match ← readModifier z with
  | none => return none
  | some modifier => p.applyModifier idx modifier

/-! ## The functions -/

/-- The time string, or the number. -/
def readFirst (machine : Machine) (first : Value) : Outcome Empty (Option DateTime) :=
  match first with
  | .integer _ | .real _ => .ok (first.asF64.map DateTime.blank.setRawNumber)
  | .null => .ok none
  | other => parseDateOrTime machine other.toDisplayString DateTime.blank

/-- The modifiers, numbered from `idx` on. -/
def applyModifiers : List Value → Nat → DateTime → Outcome Empty (Option DateTime)
  | [], _, p => .ok (some p)
  | .null :: _, _, _ => .ok none
  | m :: rest, idx, p => do
      match ← parseModifier m.toDisplayString p idx with
      | none => return none
      | some p => applyModifiers rest (idx + 1) p

/-- The checks at the end. A date without modifiers is brought into its month later. -/
def finishBuild (bare : Bool) (p : DateTime) : Outcome Empty (Option DateTime) := do
  let p ← p.computeJd
  if p.error || !(0 ≤ p.ijd && p.ijd ≤ maxIjd) then return none
  if bare && p.validYmd && 28 < p.d then return some { p with validYmd := false }
  return some p

def DateTime.build (machine : Machine) (first : Value) (modifiers : List Value) :
    Outcome Empty (Option DateTime) := do
  match ← readFirst machine first with
  | none => return none
  | some p =>
      match ← applyModifiers modifiers 1 p with
      | none => return none
      | some p => finishBuild modifiers.isEmpty p

/-- The date and time of the arguments; the current one when there are none. -/
def moment (machine : Machine) : List Value → Outcome Empty (Option DateTime)
  | [] => some <$> DateTime.blank.setToCurrent machine
  | first :: modifiers => DateTime.build machine first modifiers

namespace DateTime

/-- `{:04}-{:02}-{:02}` -/
def dateText (p : DateTime) : Text :=
  padZeros 4 p.y ++ ['-'] ++ padZeros 2 p.m ++ ['-'] ++ padZeros 2 p.d

/-- `{:02}:{:02}` -/
def minuteText (p : DateTime) : Text := padZeros 2 p.h ++ [':'] ++ padZeros 2 p.min

/-- The seconds, with milliseconds when they are asked for. -/
def secondText (p : DateTime) : Text :=
  if p.useSubsec then
    let s := asI64 (1000.0 * p.s + 0.5)
    padZeros 2 (s.tdiv 1000) ++ ['.'] ++ padZeros 3 (s.tmod 1000)
  else padZeros 2 (asI64 p.s)

end DateTime

/-- What is made of a date and time: nothing of none. -/
def onMoment (machine : Machine) (args : List Value) (make : DateTime → Outcome Empty Value) :
    Outcome Empty Value := do
  match ← moment machine args with
  | none => return .null
  | some p => make p

def date (machine : Machine) (args : List Value) : Outcome Empty Value :=
  onMoment machine args fun p => do
    let p ← p.computeYmd
    return .text p.dateText

def time (machine : Machine) (args : List Value) : Outcome Empty Value :=
  onMoment machine args fun p => do
    let p ← p.computeHms
    return .text (p.minuteText ++ [':'] ++ p.secondText)

def datetime (machine : Machine) (args : List Value) : Outcome Empty Value :=
  onMoment machine args fun p => do
    let p ← p.computeYmdHms
    return .text (p.dateText ++ [' '] ++ p.minuteText ++ [':'] ++ p.secondText)

def julianday (machine : Machine) (args : List Value) : Outcome Empty Value :=
  onMoment machine args fun p => do
    let p ← p.computeJd
    return .real (Float64.ofInt p.ijd / 86400000.0)

def unixepoch (machine : Machine) (args : List Value) : Outcome Empty Value :=
  onMoment machine args fun p => do
    let p ← p.computeJd
    if p.useSubsec then
      return .real (Float64.ofInt (← i64 (p.ijd - unixEpochMs)) / 1000.0)
    return .integer (Int64.ofInt (← i64 (p.ijd.tdiv 1000 - unixEpochMs.tdiv 1000)))

/-! ## Formats -/

/-- Without zeros behind the point. -/
def trimFrac (s : Text) : Text :=
  if s.contains '.' then
    Text.trimEndMatches (· == '.') (Text.trimEndMatches (· == '0') s)
  else s

/-- `printf("%.*g")` of 16 digits. -/
def formatG (machine : Machine) (v : Float64) (sig : Nat) : Text :=
  if v.isZero then ['0']
  else
    let exp := machine.log10 v
    if exp < -4 ∨ (sig : Int) ≤ exp then
      let s := formatExp (sig - 1) v
      match Text.splitAtFirst (· == 'e') s with
      | some (mantissa, e) => trimFrac mantissa ++ ['e'] ++ e
      | none => s
    else trimFrac (formatFixed ((sig : Int) - 1 - exp).toNat v)

/-- `p.s.min(59.999)` -/
def secondsBelow60 (s : Float64) : Float64 := if Float64.lt s 59.999 then s else 59.999

/-- The hour on a clock of twelve. -/
def hour12 (h : Int) : Outcome Empty Int := do
  let h ← i64 (if 12 < h then h - 12 else h)
  return if h = 0 then 12 else h

/-- What a letter behind `%` stands for. -/
def formatCode (machine : Machine) (p : DateTime) (cf : Char) : Outcome Empty (Option Text) := do
  match cf with
  | 'd' => return some (padZeros 2 p.d)
  | 'e' => return some (padBlanks 2 p.d)
  | 'f' =>
      let s := formatFixed 3 (secondsBelow60 p.s)
      return some (List.replicate (6 - s.length) '0' ++ s)
  | 'F' => return some p.dateText
  | 'G' => return some (padZeros 4 (← p.isoThursday).y)
  | 'g' => return some (padZeros 2 ((← p.isoThursday).y.tmod 100))
  | 'V' => return some (padZeros 2 (← i64 ((← (← p.isoThursday).daysAfterJan01).tdiv 7 + 1)))
  | 'H' => return some (padZeros 2 p.h)
  | 'k' => return some (padBlanks 2 p.h)
  | 'I' => return some (padZeros 2 (← hour12 p.h))
  | 'l' => return some (padBlanks 2 (← hour12 p.h))
  | 'j' => return some (padZeros 3 (← i64 ((← p.daysAfterJan01) + 1)))
  | 'J' => return some (formatG machine (Float64.ofInt p.ijd / 86400000.0) 16)
  | 'm' => return some (padZeros 2 p.m)
  | 'M' => return some (padZeros 2 p.min)
  | 'p' => return some (if 12 ≤ p.h then "PM" else "AM").toList
  | 'P' => return some (if 12 ≤ p.h then "pm" else "am").toList
  | 'R' => return some p.minuteText
  | 's' =>
      if p.useSubsec then
        return some (formatFixed 3 (Float64.ofInt (← i64 (p.ijd - unixEpochMs)) / 1000.0))
      return some (padZeros 1 (← i64 (p.ijd.tdiv 1000 - unixEpochMs.tdiv 1000)))
  | 'S' => return some (padZeros 2 (asI64 p.s))
  | 'T' => return some (p.minuteText ++ [':'] ++ padZeros 2 (asI64 p.s))
  | 'u' =>
      let wd ← p.daysAfterSunday
      return some (padZeros 1 (if wd = 0 then 7 else wd))
  | 'w' => return some (padZeros 1 (← p.daysAfterSunday))
  | 'U' =>
      let days ← i64 ((← p.daysAfterJan01) - (← p.daysAfterSunday))
      return some (padZeros 2 ((← i64 (days + 7)).tdiv 7))
  | 'W' =>
      let days ← i64 ((← p.daysAfterJan01) - (← p.daysAfterMonday))
      return some (padZeros 2 ((← i64 (days + 7)).tdiv 7))
  | 'Y' => return some (padZeros 4 p.y)
  | '%' => return some ['%']
  | _ => return none

/-- A format, from left to right. -/
def formatStrftime (machine : Machine) (p : DateTime) : Text → Text → Outcome Empty (Option Text)
  | [], out => return some out
  | '%' :: [], out => return some out
  | '%' :: cf :: rest, out => do
      match ← formatCode machine p cf with
      | none => return none
      | some piece => formatStrftime machine p rest (out ++ piece)
  | c :: rest, out => formatStrftime machine p rest (out ++ [c])

def strftime (machine : Machine) (args : List Value) : Outcome Empty Value :=
  match args with
  | [] => return .null
  | fmt :: rest =>
      if fmt.isNull then return .null
      else
        onMoment machine rest fun p => do
          let p ← p.computeYmdHms
          match ← formatStrftime machine p fmt.toDisplayString [] with
          | some out => return .text out
          | none => return .null

end Squrust.Sql
