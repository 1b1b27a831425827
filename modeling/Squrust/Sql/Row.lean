import Squrust.Core.Varint
import Squrust.Sql.Error

/-!
# Rows and records

A row is stored as a record: a header with the length of the header and a serial
type for each value, then the bodies of the values. A record is read back as the
values it was made from, but a boolean comes back as an integer and a JSON
document as text (`decode_encode`).
-/

set_option autoImplicit false

namespace Squrust.Sql

open Squrust.Foundation

open Squrust.Core

/-- A row: its id, which is the key of the b-tree, and its values. -/
structure Row where
  rowId : Int64
  values : List Value
deriving DecidableEq

/-! ## Encoding -/

/-- The serial type of an integer, and its body. -/
def encodeInt (i : Int64) : UInt64 × Bytes :=
  let body (width : Nat) := bigEndian width i.toUInt64.toNat
  if i = 0 then (8, [])
  else if i = 1 then (9, [])
  else if -128 ≤ i ∧ i ≤ 127 then (1, body 1)
  else if -32768 ≤ i ∧ i ≤ 32767 then (2, body 2)
  else if -8388608 ≤ i ∧ i < 8388608 then (3, body 3)
  else if -2147483648 ≤ i ∧ i ≤ 2147483647 then (4, body 4)
  else if -140737488355328 ≤ i ∧ i < 140737488355328 then (5, body 6)
  else (6, body 8)

/-- The serial type of a value, and its body. -/
def encodeValue : Value → UInt64 × Bytes
  | .null => (0, [])
  | .integer i => encodeInt i
  | .boolean b => encodeInt (bit b)
  | .real r => (7, bigEndian 8 r.bits.toNat)
  | .text t | .json t => (UInt64.ofNat (t.toUtf8.length * 2 + 13), t.toUtf8)
  | .blob b => (UInt64.ofNat (b.length * 2 + 12), b)

/-- The loop that finds the length of the header, which counts the bytes of that
length itself. -/
def headerLenLoop (serialBytes : Nat) : Nat → Nat → Nat
  | 0, headerLen => headerLen
  | rounds + 1, headerLen =>
      let candidate := serialBytes + Varint.len (UInt64.ofNat headerLen)
      if candidate = headerLen then headerLen else headerLenLoop serialBytes rounds candidate

/-- The length of a header whose serial types have so many bytes. Nine rounds of
the loop are enough (`headerLen_fixed`). -/
def headerLen (serialBytes : Nat) : Nat := headerLenLoop serialBytes 9 (serialBytes + 1)

namespace Row

/-- The record of the values. The row id is not part of it. -/
def encode (self : Row) : Bytes :=
  let encoded := self.values.map encodeValue
  let serials := encoded.map Prod.fst
  let serialBytes := (serials.map Varint.len).sum
  Varint.encoded (UInt64.ofNat (headerLen serialBytes)) ++ serials.flatMap Varint.encoded ++
    encoded.flatMap Prod.snd

end Row

/-! ## Decoding -/

/-- `&data[start..]` -/
def sliceFrom (data : Bytes) (start : Nat) : Outcome SqlError Bytes :=
  if start ≤ data.length then .ok (data.drop start)
  else .panic "range start index out of range"

def need (data : Bytes) (n : Nat) : Outcome SqlError Unit :=
  if data.length < n then Outcome.err (.type "truncated record body".toList) else .ok ()

/-- A byte moved in from the right. -/
def pushByte (v : Int64) (b : UInt8) : Int64 := (v <<< 8) ||| b.toUInt64.toInt64

def readInt (data : Bytes) (n : Nat) : Outcome SqlError Int64 := do
  need data n
  let first ← Outcome.orPanic "index out of bounds" data.head?
  let sign : Int64 := if first &&& 0x80 ≠ 0 then -1 else 0
  return (data.take n).foldl pushByte sign

/-- The value of a serial type at the front of the data, and the bytes it takes. -/
def decodeValue (serial : UInt64) (data : Bytes) : Outcome SqlError (Value × Nat) := do
  if serial = 0 then return (.null, 0)
  else if serial = 1 then return (.integer (← readInt data 1), 1)
  else if serial = 2 then return (.integer (← readInt data 2), 2)
  else if serial = 3 then return (.integer (← readInt data 3), 3)
  else if serial = 4 then return (.integer (← readInt data 4), 4)
  else if serial = 5 then return (.integer (← readInt data 6), 6)
  else if serial = 6 then return (.integer (← readInt data 8), 8)
  else if serial = 7 then
    if data.length < 8 then Outcome.err (.type "truncated real".toList)
    else return (.real ⟨UInt64.ofNat (ofBigEndian (data.take 8))⟩, 8)
  else if serial = 8 then return (.integer 0, 0)
  else if serial = 9 then return (.integer 1, 0)
  else if 12 ≤ serial ∧ serial % 2 = 0 then
    let n := ((serial - 12) / 2).toNat
    need data n
    return (.blob (data.take n), n)
  else if 13 ≤ serial then
    let n := ((serial - 13) / 2).toNat
    need data n
    match Text.fromUtf8 (data.take n) with
    | some text => return (.text text, n)
    | none => Outcome.err (.type "invalid UTF-8 text".toList)
  else
    Outcome.err (.type ("reserved serial type ".toList ++ Nat.toDigits 10 serial.toNat))

/-- The serial types from `pos` to the end of the header. Each takes a byte at
least, so there are no more rounds than bytes. -/
def readSerials (data : Bytes) (headerEnd : Nat) : Nat → Nat → Outcome SqlError (List UInt64)
  | 0, pos => if pos < headerEnd then .error .outOfFuel else return []
  | rounds + 1, pos =>
      if pos < headerEnd then do
        let rest ← sliceFrom data pos
        let (serial, n) ← Outcome.orErr (.type "bad serial type".toList) (Varint.read rest)
        return serial :: (← readSerials data headerEnd rounds (pos + n))
      else return []

/-- The values of these serial types, from `body` on. -/
def readValues (data : Bytes) : List UInt64 → Nat → Outcome SqlError (List Value)
  | [], _ => return []
  | serial :: serials, body => do
      let rest ← sliceFrom data body
      let (value, used) ← decodeValue serial rest
      return value :: (← readValues data serials (body + used))

namespace Row

/-- Read a record. -/
def decode (rowId : Int64) (data : Bytes) : Outcome SqlError Row := do
  let (headerLen, pos) ← Outcome.orErr (.type "bad record header".toList) (Varint.read data)
  let headerEnd := headerLen.toNat
  let serials ← readSerials data headerEnd (data.length + 1) pos
  return ⟨rowId, ← readValues data serials headerEnd⟩

end Row

/-! ## The header -/

/-- The loop stops in its rounds: each round but the last makes the header longer. -/
theorem headerLenLoop_fixed {serialBytes : Nat} (small : serialBytes + 9 < 2 ^ 64) (rounds headerLen : Nat)
    (below : headerLen ≤ serialBytes + Varint.len (UInt64.ofNat headerLen))
    (enough : serialBytes + 10 ≤ headerLen + rounds) :
    serialBytes + Varint.len (UInt64.ofNat (headerLenLoop serialBytes rounds headerLen)) =
      headerLenLoop serialBytes rounds headerLen := by
  induction rounds generalizing headerLen with
  | zero =>
      have := Varint.len_le_nine (UInt64.ofNat headerLen)
      omega
  | succ rounds ih =>
      rw [headerLenLoop]
      by_cases fixed : serialBytes + Varint.len (UInt64.ofNat headerLen) = headerLen
      · rw [if_pos fixed]
        exact fixed
      · rw [if_neg fixed]
        have upper := Varint.len_le_nine (UInt64.ofNat headerLen)
        refine ih _ ?_ (by omega)
        apply Nat.add_le_add_left
        apply Varint.len_mono
        rw [UInt64.le_iff_toNat_le, UInt64.toNat_ofNat_of_lt' (by rw [UInt64.size]; omega),
          UInt64.toNat_ofNat_of_lt' (by rw [UInt64.size]; omega)]
        omega

/-- The length of the header counts its own bytes. -/
theorem headerLen_fixed {serialBytes : Nat} (small : serialBytes + 9 < 2 ^ 64) :
    serialBytes + Varint.len (UInt64.ofNat (headerLen serialBytes)) = headerLen serialBytes := by
  apply headerLenLoop_fixed small
  · exact Nat.add_le_add_left (Varint.one_le_len _) _
  · omega

/-- Further rounds find nothing else. -/
theorem headerLenLoop_add {serialBytes rounds headerLen : Nat}
    (fixed : serialBytes + Varint.len (UInt64.ofNat (headerLenLoop serialBytes rounds headerLen)) =
      headerLenLoop serialBytes rounds headerLen) (more : Nat) :
    headerLenLoop serialBytes (rounds + more) headerLen = headerLenLoop serialBytes rounds headerLen := by
  induction rounds generalizing headerLen with
  | zero =>
      rw [headerLenLoop] at fixed ⊢
      cases more with
      | zero => rfl
      | succ more => rw [Nat.zero_add, headerLenLoop, if_pos fixed]
  | succ rounds ih =>
      rw [Nat.add_right_comm, headerLenLoop, headerLenLoop]
      rw [headerLenLoop] at fixed
      by_cases here : serialBytes + Varint.len (UInt64.ofNat headerLen) = headerLen
      · rw [if_pos here, if_pos here]
      · rw [if_neg here] at fixed
        rw [if_neg here, if_neg here]
        exact ih fixed

/-! ## Integers -/

theorem pushByte_eq (v : Int64) (b : UInt8) :
    pushByte v b = Int64.ofInt (v.toInt * 256 + b.toNat) := by
  apply Int64.toBitVec_inj.mp
  have low : b.toUInt64.toInt64.toBitVec = BitVec.ofNat 64 b.toNat := by
    apply BitVec.eq_of_toNat_eq
    simp
  have shift : (v <<< 8 : Int64).toBitVec = v.toBitVec <<< 8 := by
    rw [Int64.toBitVec_shiftLeft]
    rfl
  have apart : v.toBitVec <<< 8 &&& b.toUInt64.toInt64.toBitVec = 0#64 := by
    apply BitVec.eq_of_getLsbD_eq
    intro i small
    have : 8 ≤ i → b.toNat.testBit i = false := fun high =>
      Nat.testBit_lt_two_pow (b.toNat_lt.trans_le (Nat.pow_le_pow_right (by decide) high))
    rw [low, BitVec.getLsbD_and, BitVec.getLsbD_shiftLeft, BitVec.getLsbD_ofNat]
    by_cases high : 8 ≤ i
    · simp [this high]
    · simp [Nat.lt_of_not_le high]
  rw [pushByte, Int64.toBitVec_or, shift, ← BitVec.add_eq_or_of_and_eq_zero _ _ apart, low,
    BitVec.shiftLeft_eq_mul_twoPow, 
    Int64.toBitVec_ofInt, BitVec.ofInt_add, BitVec.ofInt_mul, Int64.toInt, BitVec.ofInt_toInt]
  rfl

theorem ofInt_toInt_mul_add (a : Int) (c : Int) (d : Int) : Int64.ofInt ((Int64.ofInt a).toInt * c + d) = Int64.ofInt (a * c + d) := by
  rw [Int64.ofInt_add, Int64.ofInt_mul, Int64.ofInt_toInt, ← Int64.ofInt_mul, ← Int64.ofInt_add]

theorem foldl_pushByte (bytes : Bytes) (v : Int64) :
    bytes.foldl pushByte v = Int64.ofInt (v.toInt * 256 ^ bytes.length + ofBigEndian bytes) := by
  induction bytes using List.reverseRecOn with
  | nil => simp [ofBigEndian]
  | append_singleton bytes b ih =>
      rw [List.foldl_append, List.foldl_cons, List.foldl_nil, ih, pushByte_eq, ofInt_toInt_mul_add]
      congr 1
      rw [ofBigEndian, ofBigEndian, List.foldl_append, List.foldl_cons, List.foldl_nil]
      simp only [List.length_append, List.length_singleton, pow_succ]
      push_cast
      ring

theorem toNat_toUInt64 (i : Int64) : (i.toUInt64.toNat : Int) = i.toInt % 2 ^ 64 := by
  change (i.toBitVec.toNat : Int) = i.toBitVec.toInt % 2 ^ 64
  have whole : ((i.toBitVec.toNat : Int).bmod (2 ^ 64)) % ((2 ^ 64 : Nat) : Int) =
      (i.toBitVec.toNat : Int) % ((2 ^ 64 : Nat) : Int) := Int.bmod_emod
  have small := i.toBitVec.isLt
  rw [BitVec.toInt_eq_toNat_bmod]
  have exact' : (i.toBitVec.toNat : Int) % ((2 ^ 64 : Nat) : Int) = i.toBitVec.toNat :=
    Int.emod_eq_of_lt (by omega) (by omega)
  exact (whole.trans exact').symm

/-- The last bytes of a number, as the rest of its division. -/
theorem lastBytes (i : Int64) {k : Nat} (few : k < 8) :
    ((i.toUInt64.toNat % (256 * 256 ^ k) : Nat) : Int) = i.toInt % (256 * 256 ^ k) := by
  have divides : (256 * 256 ^ k : Int) ∣ 2 ^ 64 := by
    have : (2 : Int) ^ 64 = 256 * 256 ^ k * 256 ^ (7 - k) := by
      rw [mul_assoc, ← pow_add, show k + (7 - k) = 7 by omega]
      norm_num
    exact Dvd.intro _ this.symm
  push_cast
  rw [toNat_toUInt64, Int.emod_emod_of_dvd _ divides]

theorem signBit (b : UInt8) : b &&& 0x80 ≠ 0 ↔ 128 ≤ b.toNat := by
  have table : ∀ n : Nat, n < 256 → (UInt8.ofNat n &&& 0x80 ≠ 0 ↔ 128 ≤ n) := by decide +kernel
  have := table b.toNat b.toNat_lt
  rwa [UInt8.ofNat_toNat] at this

/-- An integer that fits in some bytes is read back from them. -/
theorem readInt_bigEndian {i : Int64} {k : Nat} (few : k < 8)
    (low : -(128 * 256 ^ k) ≤ i.toInt) (high : i.toInt < 128 * 256 ^ k) (rest : Bytes) :
    readInt (bigEndian (k + 1) i.toUInt64.toNat ++ rest) (k + 1) = .ok i := by
  have body : (bigEndian (k + 1) i.toUInt64.toNat ++ rest).take (k + 1) =
      bigEndian (k + 1) i.toUInt64.toNat := List.take_left' (length_bigEndian _ _)
  have long : ¬ (bigEndian (k + 1) i.toUInt64.toNat ++ rest).length < k + 1 := by
    rw [List.length_append, length_bigEndian]
    omega
  have head : (bigEndian (k + 1) i.toUInt64.toNat ++ rest).head? =
      some (UInt8.ofNat (i.toUInt64.toNat / 256 ^ k)) := rfl
  have spelled : ofBigEndian (bigEndian (k + 1) i.toUInt64.toNat) =
      i.toUInt64.toNat % (256 * 256 ^ k) := by
    rw [ofBigEndian_bigEndian, Nat.pow_succ, Nat.mul_comm]
  have first : (UInt8.ofNat (i.toUInt64.toNat / 256 ^ k)).toNat =
      i.toUInt64.toNat % (256 * 256 ^ k) / 256 ^ k := by
    rw [UInt8.toNat_ofNat', Nat.mul_comm 256, Nat.mod_mul_right_div_self]
  have rest := lastBytes i few
  simp only [readInt, need, if_neg long, head, Outcome.orPanic, body, foldl_pushByte,
    length_bigEndian, spelled, signBit, first, Outcome.ok_bind]
  have power : 0 < 256 ^ k := by positivity
  have cast : ((256 ^ k : Nat) : Int) = 256 ^ k := by push_cast; rfl
  rw [← cast] at low high rest
  have wider : (256 : Int) ^ (k + 1) = 256 * (256 ^ k : Nat) := by rw [pow_succ, cast, mul_comm]
  rw [wider]
  generalize 256 ^ k = p at low high rest power ⊢
  generalize i.toUInt64.toNat % (256 * p) = m at rest ⊢
  -- The byte in front tells whether the number is negative.
  rcases Int.lt_or_le i.toInt 0 with negative | positive
  · have bytes : (m : Int) = i.toInt + 256 * p := by
      rw [rest, ← Int.add_emod_right, Int.emod_eq_of_lt (by omega) (by omega)]
    have signed : 128 ≤ m / p := by
      rw [Nat.le_div_iff_mul_le power]
      omega
    have back : (-1 : Int64).toInt * (256 * p) + m = i.toInt := by
      rw [bytes, show (-1 : Int64).toInt = -1 from rfl]
      ring
    rw [if_pos signed, back, Int64.ofInt_toInt]
    rfl
  · have bytes : (m : Int) = i.toInt := by
      rw [rest, Int.emod_eq_of_lt positive (by omega)]
    have unsigned : ¬ 128 ≤ m / p := by
      rw [Nat.le_div_iff_mul_le power]
      omega
    have back : (0 : Int64).toInt * (256 * p) + m = i.toInt := by
      rw [bytes, show (0 : Int64).toInt = 0 from rfl]
      ring
    rw [if_neg unsigned, back, Int64.ofInt_toInt]
    rfl

/-! ## Values -/

/-- What a value is read back as. -/
def Value.stored : Value → Value
  | .boolean b => .integer (bit b)
  | .json j => .text j
  | v => v

theorem decodeValue_encodeInt (i : Int64) (rest : Bytes) :
    decodeValue (encodeInt i).1 ((encodeInt i).2 ++ rest) =
      .ok (.integer i, (encodeInt i).2.length) := by
  have body (serial : UInt64) (k : Nat) (few : k < 8) (low : -(128 * 256 ^ k) ≤ i.toInt)
      (high : i.toInt < 128 * 256 ^ k)
      (read : ∀ data, decodeValue serial data =
        (do return (.integer (← readInt data (k + 1)), k + 1))) :
      decodeValue serial (bigEndian (k + 1) i.toUInt64.toNat ++ rest) =
        .ok (.integer i, (bigEndian (k + 1) i.toUInt64.toNat).length) := by
    rw [read, readInt_bigEndian few low high, length_bigEndian]
    rfl
  have bounds := i.minValue_le_toInt
  have bounds' := i.toInt_le
  unfold encodeInt
  simp only [Int64.le_iff_toInt_le, Int64.lt_iff_toInt_lt]
  split
  · next zero =>
    rw [zero]
    rfl
  split
  · next one =>
    rw [one]
    rfl
  split
  · next range => exact body 1 0 (by decide) range.1 (Int.lt_add_one_of_le range.2) fun _ => rfl
  split
  · next range => exact body 2 1 (by decide) range.1 (Int.lt_add_one_of_le range.2) fun _ => rfl
  split
  · next range => exact body 3 2 (by decide) range.1 range.2 fun _ => rfl
  split
  · next range => exact body 4 3 (by decide) range.1 (Int.lt_add_one_of_le range.2) fun _ => rfl
  split
  · next range => exact body 5 5 (by decide) range.1 range.2 fun _ => rfl
  · exact body 6 7 (by decide) bounds (Int.lt_add_one_of_le bounds') fun _ => rfl

theorem decodeValue_text {t : Text} (small : t.toUtf8.length * 2 + 13 < 2 ^ 64) (rest : Bytes) :
    decodeValue (UInt64.ofNat (t.toUtf8.length * 2 + 13)) (t.toUtf8 ++ rest) =
      .ok (.text t, t.toUtf8.length) := by
  have whole : (UInt64.ofNat (t.toUtf8.length * 2 + 13)).toNat = t.toUtf8.length * 2 + 13 :=
    UInt64.toNat_ofNat_of_lt' (by rw [UInt64.size]; omega)
  have far : (13 : UInt64) ≤ UInt64.ofNat (t.toUtf8.length * 2 + 13) := by
    rw [UInt64.le_iff_toNat_le, whole]
    exact Nat.le_add_left _ _
  have size : ((UInt64.ofNat (t.toUtf8.length * 2 + 13) - 13) / 2).toNat = t.toUtf8.length := by
    rw [UInt64.toNat_div, UInt64.toNat_sub_of_le _ _ far, whole]
    simp
  have long : ¬ (t.toUtf8 ++ rest).length < t.toUtf8.length := by
    rw [List.length_append]
    omega
  have large : ∀ n : UInt64, n.toNat < 13 → UInt64.ofNat (t.toUtf8.length * 2 + 13) ≠ n := by
    intro n below same
    rw [← same, whole] at below
    omega
  have odd : ¬ (12 ≤ UInt64.ofNat (t.toUtf8.length * 2 + 13) ∧
      UInt64.ofNat (t.toUtf8.length * 2 + 13) % 2 = 0) := by
    rintro ⟨_, even⟩
    have := congrArg UInt64.toNat even
    rw [UInt64.toNat_mod, whole] at this
    simp at this
  unfold decodeValue
  rw [if_neg (large 0 (by decide)), if_neg (large 1 (by decide)), if_neg (large 2 (by decide)),
    if_neg (large 3 (by decide)), if_neg (large 4 (by decide)), if_neg (large 5 (by decide)),
    if_neg (large 6 (by decide)), if_neg (large 7 (by decide)), if_neg (large 8 (by decide)),
    if_neg (large 9 (by decide)), if_neg odd, if_pos far]
  simp only [size, need, if_neg long, List.take_left, Text.fromUtf8_toUtf8]
  rfl

theorem decodeValue_blob {b : Bytes} (small : b.length * 2 + 13 < 2 ^ 64) (rest : Bytes) :
    decodeValue (UInt64.ofNat (b.length * 2 + 12)) (b ++ rest) = .ok (.blob b, b.length) := by
  have whole : (UInt64.ofNat (b.length * 2 + 12)).toNat = b.length * 2 + 12 :=
    UInt64.toNat_ofNat_of_lt' (by rw [UInt64.size]; omega)
  have far : (12 : UInt64) ≤ UInt64.ofNat (b.length * 2 + 12) := by
    rw [UInt64.le_iff_toNat_le, whole]
    exact Nat.le_add_left _ _
  have size : ((UInt64.ofNat (b.length * 2 + 12) - 12) / 2).toNat = b.length := by
    rw [UInt64.toNat_div, UInt64.toNat_sub_of_le _ _ far, whole]
    simp
  have long : ¬ (b ++ rest).length < b.length := by
    rw [List.length_append]
    omega
  have large : ∀ n : UInt64, n.toNat < 12 → UInt64.ofNat (b.length * 2 + 12) ≠ n := by
    intro n below same
    rw [← same, whole] at below
    omega
  have even : UInt64.ofNat (b.length * 2 + 12) % 2 = 0 := by
    apply UInt64.toNat_inj.mp
    rw [UInt64.toNat_mod, whole]
    simp
  unfold decodeValue
  rw [if_neg (large 0 (by decide)), if_neg (large 1 (by decide)), if_neg (large 2 (by decide)),
    if_neg (large 3 (by decide)), if_neg (large 4 (by decide)), if_neg (large 5 (by decide)),
    if_neg (large 6 (by decide)), if_neg (large 7 (by decide)), if_neg (large 8 (by decide)),
    if_neg (large 9 (by decide)), if_pos ⟨far, even⟩]
  simp only [size, need, if_neg long, List.take_left]
  rfl

/-- A body is read back, whatever stands behind it. -/
theorem decodeValue_encodeValue {v : Value} (small : (encodeValue v).2.length * 2 + 13 < 2 ^ 64)
    (rest : Bytes) :
    decodeValue (encodeValue v).1 ((encodeValue v).2 ++ rest) =
      .ok (v.stored, (encodeValue v).2.length) := by
  cases v with
  | null => rfl
  | integer i => exact decodeValue_encodeInt i rest
  | boolean b => exact decodeValue_encodeInt (bit b) rest
  | real r =>
      have long : ¬ (bigEndian 8 r.bits.toNat ++ rest).length < 8 := by
        rw [List.length_append, length_bigEndian]
        omega
      have body : (bigEndian 8 r.bits.toNat ++ rest).take 8 = bigEndian 8 r.bits.toNat :=
        List.take_left' (length_bigEndian _ _)
      have read : ∀ data, decodeValue 7 data =
          if data.length < 8 then Outcome.err (.type "truncated real".toList)
          else .ok (.real ⟨UInt64.ofNat (ofBigEndian (data.take 8))⟩, 8) := fun _ => rfl
      change decodeValue 7 (bigEndian 8 r.bits.toNat ++ rest) = _
      rw [read, if_neg long, body, ofBigEndian_bigEndian_of_lt r.bits.toNat_lt, UInt64.ofNat_toNat,
        encodeValue, length_bigEndian]
      rfl
  | text t => exact decodeValue_text small rest
  | json t => exact decodeValue_text small rest
  | blob b => exact decodeValue_blob small rest

/-! ## Records -/

theorem readSerials_encoded {data before rest : Bytes} (serials : List UInt64) {rounds : Nat}
    (split : data = before ++ (serials.flatMap Varint.encoded ++ rest))
    (enough : serials.length ≤ rounds) :
    readSerials data (before.length + (serials.map Varint.len).sum) rounds before.length =
      .ok serials := by
  induction serials generalizing before rounds with
  | nil =>
      have reached : ¬ before.length < before.length + (List.map Varint.len []).sum := by simp
      cases rounds with
      | zero => rw [readSerials, if_neg reached]; rfl
      | succ rounds => rw [readSerials, if_neg reached]; rfl
  | cons serial serials ih =>
      obtain ⟨rounds, rfl⟩ : ∃ less, rounds = less + 1 := ⟨rounds - 1, by simp at enough; omega⟩
      have more := Varint.one_le_len serial
      have inside : before.length ≤ data.length := by
        rw [split, List.length_append]
        exact Nat.le_add_right _ _
      have behind : data.drop before.length =
          Varint.encoded serial ++ (serials.flatMap Varint.encoded ++ rest) := by
        rw [split, List.drop_left, List.flatMap_cons, List.append_assoc]
      have later := @ih (before ++ Varint.encoded serial) rounds
        (by rw [split, List.flatMap_cons, List.append_assoc, List.append_assoc])
        (by simpa using enough)
      rw [List.length_append, Varint.length_encoded, Nat.add_assoc] at later
      rw [readSerials, if_pos (by simp; omega), sliceFrom, if_pos inside, behind]
      simp only [List.map_cons, List.sum_cons, Outcome.ok_bind, Varint.read_encoded, Outcome.orErr,
        later]
      rfl

theorem readValues_encoded {data before : Bytes} (values : List Value)
    (small : ∀ v ∈ values, (encodeValue v).2.length * 2 + 13 < 2 ^ 64)
    (split : data = before ++ values.flatMap fun v => (encodeValue v).2) :
    readValues data (values.map fun v => (encodeValue v).1) before.length =
      .ok (values.map Value.stored) := by
  induction values generalizing before with
  | nil => rfl
  | cons v values ih =>
      have inside : before.length ≤ data.length := by
        rw [split, List.length_append]
        exact Nat.le_add_right _ _
      have behind : data.drop before.length =
          (encodeValue v).2 ++ values.flatMap fun v => (encodeValue v).2 := by
        rw [split, List.drop_left, List.flatMap_cons]
      have later := @ih (before ++ (encodeValue v).2) (fun v later => small v (by simp [later]))
        (by rw [split, List.flatMap_cons, List.append_assoc])
      rw [List.length_append] at later
      rw [List.map_cons, readValues, sliceFrom, if_pos inside, behind]
      simp only [Outcome.ok_bind, decodeValue_encodeValue (small v (by simp)), later]
      rfl

theorem serials_le_sum (serials : List UInt64) :
    serials.length ≤ (serials.map Varint.len).sum := by
  induction serials with
  | nil => exact le_refl 0
  | cons serial serials ih =>
      have := Varint.one_le_len serial
      rw [List.length_cons, List.map_cons, List.sum_cons]
      omega

theorem length_flatMap_encoded (serials : List UInt64) :
    (serials.flatMap Varint.encoded).length = (serials.map Varint.len).sum := by
  rw [List.length_flatMap]
  simp only [Varint.length_encoded]

namespace Row

/-- The serial types of the values. -/
def serials (row : Row) : List UInt64 := row.values.map fun v => (encodeValue v).1

/-- The bytes of the serial types. -/
def serialBytes (row : Row) : Nat := (row.serials.map Varint.len).sum

/-- The header of the record: its own length, and the serial types. -/
def header (row : Row) : Bytes :=
  Varint.encoded (UInt64.ofNat (headerLen row.serialBytes)) ++ row.serials.flatMap Varint.encoded

/-- The bodies of the values. -/
def bodies (row : Row) : Bytes := row.values.flatMap fun v => (encodeValue v).2

theorem encode_eq (row : Row) : row.encode = row.header ++ row.bodies := by
  simp only [encode, header, serialBytes, serials, bodies, List.map_map, List.flatMap_map]
  rfl

/-- The values, their bodies and the record are in memory at the same time, where an address has 64
bits. -/
def InMemory (row : Row) : Prop := 3 * row.encode.length ≤ 2 ^ 64

variable {row : Row}

theorem length_header_le (row : Row) : row.serialBytes + row.bodies.length ≤ row.encode.length := by
  rw [encode_eq, header, List.length_append, List.length_append, length_flatMap_encoded, serialBytes]
  omega

theorem InMemory.headerLen_fixed (small : row.InMemory) :
    row.serialBytes + Varint.len (UInt64.ofNat (headerLen row.serialBytes)) =
      headerLen row.serialBytes := by
  have sizes := row.length_header_le
  rw [InMemory] at small
  exact Squrust.Sql.headerLen_fixed (by omega)

theorem InMemory.length_header (small : row.InMemory) :
    row.header.length = headerLen row.serialBytes := by
  have fixed := small.headerLen_fixed
  rw [header, List.length_append, Varint.length_encoded, length_flatMap_encoded]
  rw [serialBytes] at fixed ⊢
  omega

theorem InMemory.headerLen_lt (small : row.InMemory) : headerLen row.serialBytes < 2 ^ 64 := by
  have sizes := congrArg List.length row.encode_eq
  have length := small.length_header
  rw [InMemory] at small
  rw [List.length_append] at sizes
  omega

/-- The length in front of the record is that of its header. -/
theorem InMemory.read_encode (small : row.InMemory) :
    Varint.read row.encode = some (UInt64.ofNat row.header.length,
      Varint.len (UInt64.ofNat row.header.length)) := by
  rw [small.length_header, encode_eq, header, List.append_assoc, Varint.read_encoded]

/-- **Round trip.** A record is read back as the values it was made from. -/
theorem decode_encode (small : row.InMemory) :
    Row.decode row.rowId row.encode = .ok ⟨row.rowId, row.values.map Value.stored⟩ := by
  have sizes := row.length_header_le
  have each : ∀ v ∈ row.values, (encodeValue v).2.length * 2 + 13 < 2 ^ 64 := by
    intro v member
    obtain ⟨front, back, split⟩ := List.append_of_mem member
    have part : (encodeValue v).2.length ≤ row.bodies.length := by
      rw [bodies, split, List.flatMap_append, List.flatMap_cons, List.length_append, List.length_append]
      omega
    rw [InMemory] at small
    omega
  have whole : (UInt64.ofNat row.header.length).toNat = row.header.length := by
    rw [small.length_header]
    exact UInt64.toNat_ofNat_of_lt' small.headerLen_lt
  have fixed := small.headerLen_fixed
  have length := small.length_header
  have record := row.encode_eq
  have fewer := serials_le_sum row.serials
  have serialsRead := @readSerials_encoded row.encode
    (Varint.encoded (UInt64.ofNat (headerLen row.serialBytes))) row.bodies row.serials
    (row.encode.length + 1) (by rw [record, header, List.append_assoc]) (by
      rw [serialBytes] at sizes
      omega)
  rw [Varint.length_encoded, ← serialBytes, Nat.add_comm _ row.serialBytes, fixed, ← length] at serialsRead
  have valuesRead := @readValues_encoded row.encode row.header row.values each record
  simp only [decode, small.read_encode, Outcome.orErr, Outcome.ok_bind, whole, serialsRead]
  rw [serials, valuesRead]
  rfl

end Row

example : Row.decode 7 (Row.encode ⟨7, [.integer (-1000), .boolean true, .text "ab".toList]⟩) =
    .ok ⟨7, [.integer (-1000), .integer 1, .text "ab".toList]⟩ := by decide +kernel

end Squrust.Sql
