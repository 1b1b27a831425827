import Squrust.Foundation.Bytes
import Mathlib.Tactic.IntervalCases

/-!
# Variable-length integers

Base-128 numbers of one to nine bytes, most significant group first. The first
eight bytes carry seven bits each and a flag that more bytes follow; a ninth
byte carries eight bits, which makes 64.

The loop that writes the groups is `groups`; as numbers its output is
`sevens`. Reading what was written, whatever follows it, gives the value and
the number of bytes back (`read_write`).
-/

set_option autoImplicit false

namespace Squrust.Core.Varint

open Squrust.Foundation

/-- The number of bytes `write` emits. -/
def len (v : UInt64) : Nat :=
  if v ≤ 0x7f then 1
  else if v ≤ 0x3fff then 2
  else if v ≤ 0x1fffff then 3
  else if v ≤ 0xfffffff then 4
  else if v ≤ 0x7ffffffff then 5
  else if v ≤ 0x3ffffffffff then 6
  else if v ≤ 0x1ffffffffffff then 7
  else if v ≤ 0xffffffffffffff then 8
  else 9

/-! ## Lengths -/

/-- The first limit a value is within, counted from `n`. -/
def lenFrom (v : UInt64) : Nat → List UInt64 → Nat
  | n, [] => n
  | n, limit :: limits => if v ≤ limit then n else lenFrom v (n + 1) limits

def limits : List UInt64 :=
  [0x7f, 0x3fff, 0x1fffff, 0xfffffff, 0x7ffffffff, 0x3ffffffffff, 0x1ffffffffffff, 0xffffffffffffff]

theorem len_eq (v : UInt64) : len v = lenFrom v 1 limits := rfl

theorem lenFrom_bounds (v : UInt64) (n : Nat) (limits : List UInt64) :
    n ≤ lenFrom v n limits ∧ lenFrom v n limits ≤ n + limits.length := by
  induction limits generalizing n with
  | nil => exact ⟨le_refl n, le_refl n⟩
  | cons limit limits ih =>
      have := ih (n + 1)
      rw [lenFrom, List.length_cons]
      split
      · omega
      · omega

theorem lenFrom_mono {v w : UInt64} (le : v ≤ w) (n : Nat) (limits : List UInt64) :
    lenFrom v n limits ≤ lenFrom w n limits := by
  induction limits generalizing n with
  | nil => exact le_refl n
  | cons limit limits ih =>
      rw [lenFrom, lenFrom]
      by_cases inner : w ≤ limit
      · rw [if_pos inner, if_pos (UInt64.le_trans le inner)]
      · rw [if_neg inner]
        split
        · have := (lenFrom_bounds w (n + 1) limits).1
          omega
        · exact ih (n + 1)


theorem one_le_len (v : UInt64) : 1 ≤ len v := (lenFrom_bounds v 1 limits).1

theorem len_le_nine (v : UInt64) : len v ≤ 9 := (lenFrom_bounds v 1 limits).2

theorem len_mono {v w : UInt64} (le : v ≤ w) : len v ≤ len w := lenFrom_mono le 1 limits

/-! ## Writing and reading -/

/-- The loop of `write`: groups of seven bits, from the last to the first, each
with the flag that more bytes follow. -/
def groups : Nat → UInt64 → Bytes → Bytes
  | 0, _, buf => buf
  | n + 1, x, buf => groups n (x >>> 7) (((x.toUInt8 &&& 0x7f) ||| 0x80) :: buf)

/-- Append the encoding of a value; the number of bytes appended. -/
def write (out : Bytes) (v : UInt64) : Bytes × Nat :=
  if v > 0x00ffffffffffffff then
    (out ++ groups 8 (v >>> 8) [v.toUInt8], 9)
  else
    let n := len v
    -- the last byte loses the flag
    (out ++ (groups n v []).modify (n - 1) (· &&& 0x7f), n)

/-- The loop of `read` at byte `i`. -/
def readLoop (data : Bytes) : Nat → Nat → UInt64 → Option (UInt64 × Nat)
  | 0, _, result => do
      let byte ← data[8]?
      return ((result <<< 8) ||| byte.toUInt64, 9)
  | rounds + 1, i, result => do
      let byte ← data[i]?
      if byte &&& 0x80 = 0 then
        return ((result <<< 7) ||| byte.toUInt64, i + 1)
      else
        readLoop data rounds (i + 1) ((result <<< 7) ||| (byte &&& 0x7f).toUInt64)

/-- Read a value from the front; the value and the number of bytes read. -/
def read (data : Bytes) : Option (UInt64 × Nat) := readLoop data 8 0 0

theorem readLoop_bounds {data : Bytes} {rounds i : Nat} {result value : UInt64} {n : Nat}
    (found : readLoop data rounds i result = some (value, n)) (few : i + rounds = 8) :
    0 < n ∧ n ≤ data.length := by
  induction rounds generalizing i result with
  | zero =>
      rw [readLoop] at found
      cases last : data[8]? with
      | none => simp [last] at found
      | some byte =>
          obtain ⟨within, -⟩ := List.getElem?_eq_some_iff.mp last
          simp only [last] at found
          obtain ⟨-, rfl⟩ := Prod.mk.inj (Option.some.inj found)
          omega
  | succ rounds ih =>
      rw [readLoop] at found
      cases here : data[i]? with
      | none => simp [here] at found
      | some byte =>
          obtain ⟨within, -⟩ := List.getElem?_eq_some_iff.mp here
          simp only [here] at found
          change (if byte &&& 0x80 = 0 then _ else _) = _ at found
          split at found
          · obtain ⟨-, rfl⟩ := Prod.mk.inj (Option.some.inj found)
            omega
          · exact ih found (by omega)

/-- A number takes a byte at least, and no more than there are. -/
theorem read_bounds {data : Bytes} {value : UInt64} {n : Nat} (found : read data = some (value, n)) :
    0 < n ∧ n ≤ data.length :=
  readLoop_bounds found rfl

/-! ## The groups as numbers -/

/-- The last `n` groups of a number, each with the flag. -/
def sevens : Nat → Nat → Bytes
  | 0, _ => []
  | n + 1, v => sevens n (v / 128) ++ [UInt8.ofNat (v % 128 + 128)]

@[simp] theorem length_sevens (n v : Nat) : (sevens n v).length = n := by
  induction n generalizing v with
  | zero => rfl
  | succ n ih => simp [sevens, ih]

/-- A group with the flag, as the loop computes it. -/
theorem flagged (x : UInt64) :
    (x.toUInt8 &&& 0x7f) ||| 0x80 = UInt8.ofNat (x.toNat % 128 + 128) := by
  have table : ∀ b : Nat, b < 256 →
      (UInt8.ofNat b &&& 0x7f) ||| 0x80 = UInt8.ofNat (b % 128 + 128) := by decide +kernel
  have byte : x.toUInt8 = UInt8.ofNat (x.toNat % 256) := by
    apply UInt8.toNat_inj.mp
    simp
  rw [byte, table _ (Nat.mod_lt _ (by decide))]
  congr 2
  omega

theorem groups_eq (n : Nat) (x : UInt64) (buf : Bytes) :
    groups n x buf = sevens n x.toNat ++ buf := by
  induction n generalizing x buf with
  | zero => rfl
  | succ n ih =>
      have shifted : (x >>> 7).toNat = x.toNat / 128 := by
        simp [UInt64.toNat_shiftRight, Nat.shiftRight_eq_div_pow]
      rw [groups, ih, flagged, sevens, shifted, List.append_assoc, List.singleton_append]

/-- The flag is set in a group that has it and taken off by the mask. -/
theorem group_flag (v : Nat) :
    ¬ (UInt8.ofNat (v % 128 + 128) &&& 0x80 = 0) ∧
      (UInt8.ofNat (v % 128 + 128) &&& 0x7f).toUInt64.toNat = v % 128 := by
  have table : ∀ b : Nat, b < 128 → ¬ (UInt8.ofNat (b + 128) &&& 0x80 = 0) ∧
      (UInt8.ofNat (b + 128) &&& 0x7f).toUInt64.toNat = b := by decide +kernel
  exact table _ (Nat.mod_lt _ (by decide))

/-- Appending low bits that fit. -/
theorem toNat_shift_or {r b : UInt64} (bits : Nat) (amount : bits < 64)
    (room : r.toNat < 2 ^ (64 - bits)) (low : b.toNat < 2 ^ bits) :
    ((r <<< UInt64.ofNat bits) ||| b).toNat = r.toNat * 2 ^ bits + b.toNat := by
  have same : (UInt64.ofNat bits).toNat % 64 = bits := by
    simp only [UInt64.toNat_ofNat']
    omega
  have noOverflow : r.toNat * 2 ^ bits < 2 ^ 64 := by
    calc r.toNat * 2 ^ bits < 2 ^ (64 - bits) * 2 ^ bits :=
          Nat.mul_lt_mul_of_pos_right room (Nat.two_pow_pos bits)
      _ = 2 ^ 64 := by rw [← Nat.pow_add, Nat.sub_add_cancel (by omega)]
  rw [UInt64.toNat_or, UInt64.toNat_shiftLeft, same, Nat.shiftLeft_eq,
    Nat.mod_eq_of_lt noOverflow, Nat.mul_comm, ← Nat.two_pow_add_eq_or_of_lt low]

/-! ## Reading back -/

/-- The loop reads a run of flagged groups into its result. -/
theorem readLoop_sevens {data rest : Bytes} {k v i : Nat} {r : UInt64} (rounds : Nat)
    (here : data.drop i = sevens k v ++ rest) (within : i + k ≤ 8)
    (small : r.toNat < 128 ^ i) :
    ∃ r' : UInt64, readLoop data (rounds + k) i r = readLoop data rounds (i + k) r' ∧
      r'.toNat = r.toNat * 128 ^ k + v % 128 ^ k ∧ r'.toNat < 128 ^ (i + k) := by
  induction k generalizing v rest rounds with
  | zero => exact ⟨r, rfl, by simp [Nat.mod_one], small⟩
  | succ k ih =>
      rw [sevens, List.append_assoc] at here
      obtain ⟨r', read, value, bound⟩ := ih (rounds + 1) here (by omega)
      have byte : data[i + k]? = some (UInt8.ofNat (v % 128 + 128)) := by
        have index : data[i + k]? = (data.drop i)[k]? := by rw [List.getElem?_drop]
        rw [index, here, List.getElem?_append_right (by simp)]
        simp
      obtain ⟨flag, group⟩ := group_flag v
      have room : r'.toNat < 2 ^ (64 - 7) := by
        refine bound.trans_le ?_
        calc 128 ^ (i + k) ≤ 128 ^ 7 := Nat.pow_le_pow_right (by decide) (by omega)
          _ ≤ 2 ^ (64 - 7) := by decide
      let low := (UInt8.ofNat (v % 128 + 128) &&& 0x7f).toUInt64
      have joined : ((r' <<< 7) ||| low).toNat = r'.toNat * 2 ^ 7 + low.toNat :=
        toNat_shift_or 7 (by decide) room (by rw [group]; exact Nat.mod_lt _ (by decide))
      rw [group] at joined
      refine ⟨(r' <<< 7) ||| low, ?_, ?_, ?_⟩
      · rw [show rounds + (k + 1) = rounds + 1 + k by omega, read, readLoop, byte]
        simp only [Option.bind_eq_bind, Option.bind_some, if_neg flag, Nat.add_assoc]
        rfl
      · refine joined.trans ?_
        have digits : v % 128 ^ (k + 1) = 128 * (v / 128 % 128 ^ k) + v % 128 := by
          rw [Nat.pow_succ, Nat.mul_comm, Nat.mod_mul]
          ring
        rw [value, digits]
        ring
      · refine joined.trans_lt ?_
        have below : v % 128 < 128 := Nat.mod_lt _ (by decide)
        calc r'.toNat * 2 ^ 7 + v % 128 < (r'.toNat + 1) * 128 := by omega
          _ ≤ 128 ^ (i + k) * 128 := Nat.mul_le_mul_right _ bound
          _ = 128 ^ (i + (k + 1)) := by rw [← Nat.add_assoc, Nat.pow_succ]

/-- A value has at most `len` groups. -/
theorem lt_of_len {v : UInt64} (short : v ≤ 0x00ffffffffffffff) :
    1 ≤ len v ∧ len v ≤ 8 ∧ v.toNat < 128 ^ len v := by
  simp only [UInt64.le_iff_toNat_le, UInt64.reduceToNat] at short
  unfold len
  simp only [UInt64.le_iff_toNat_le, UInt64.reduceToNat]
  repeat' split
  all_goals omega

theorem modify_last (front : Bytes) (last : UInt8) (f : UInt8 → UInt8) :
    (front ++ [last]).modify front.length f = front ++ [f last] := by
  induction front with
  | nil => rfl
  | cons byte front ih => simp [ih]

/-- The bytes `write` emits for a value. -/
def encoded (v : UInt64) : Bytes := (write [] v).1

theorem write_eq (out : Bytes) (v : UInt64) : (write out v).1 = out ++ encoded v := by
  unfold encoded write
  split <;> simp

theorem encoded_long {v : UInt64} (long : v > 0x00ffffffffffffff) :
    encoded v = sevens 8 (v.toNat / 256) ++ [v.toUInt8] := by
  have shifted : (v >>> 8).toNat = v.toNat / 256 := by
    simp [UInt64.toNat_shiftRight, Nat.shiftRight_eq_div_pow]
  simp [encoded, write, if_pos long, groups_eq, shifted]

theorem encoded_short {v : UInt64} (short : v ≤ 0x00ffffffffffffff) :
    encoded v = sevens (len v - 1) (v.toNat / 128) ++ [UInt8.ofNat (v.toNat % 128)] := by
  obtain ⟨positive, _, _⟩ := lt_of_len short
  obtain ⟨n, count⟩ : ∃ n, len v = n + 1 := ⟨len v - 1, by omega⟩
  have masked : ∀ b : Nat, b < 128 → UInt8.ofNat (b + 128) &&& 0x7f = UInt8.ofNat b := by decide +kernel
  have last : (sevens n (v.toNat / 128) ++ [UInt8.ofNat (v.toNat % 128 + 128)]).modify n
      (· &&& 0x7f) = sevens n (v.toNat / 128) ++ [UInt8.ofNat (v.toNat % 128)] := by
    have cleared := modify_last (sevens n (v.toNat / 128)) (UInt8.ofNat (v.toNat % 128 + 128))
      (· &&& 0x7f)
    rwa [length_sevens, masked _ (Nat.mod_lt v.toNat (by decide : 0 < 128))] at cleared
  simp only [encoded, write, if_neg (UInt64.not_lt.mpr short), List.nil_append, groups_eq,
    List.append_nil, count, sevens, Nat.add_sub_cancel, last]

@[simp] theorem length_encoded (v : UInt64) : (encoded v).length = len v := by
  by_cases long : v > 0x00ffffffffffffff
  · have nine : len v = 9 := by
      simp only [gt_iff_lt, UInt64.lt_iff_toNat_lt, UInt64.reduceToNat] at long
      unfold len
      simp only [UInt64.le_iff_toNat_le, UInt64.reduceToNat]
      repeat' split
      all_goals omega
    simp [encoded_long long, nine]
  · have short := UInt64.not_lt.mp long
    have positive := (lt_of_len short).1
    simp only [encoded_short short, List.length_append, length_sevens, List.length_singleton]
    omega

/-- **Reading back.** What was written, whatever follows it, reads as the
value and its length. -/
theorem read_encoded (v : UInt64) (rest : Bytes) : read (encoded v ++ rest) = some (v, len v) := by
  have nothing : (0 : UInt64).toNat < 128 ^ 0 := by decide
  have onSevens : ∀ (k u : Nat) (last : Bytes), encoded v = sevens k u ++ last →
      (encoded v ++ rest).drop 0 = sevens k u ++ (last ++ rest) := by
    intro k u last shape
    rw [shape, List.drop_zero, List.append_assoc]
  by_cases long : v > 0x00ffffffffffffff
  · have nine : len v = 9 := by rw [← length_encoded, encoded_long long]; simp
    have top : v.toNat / 256 < 128 ^ 8 := by
      have := v.toNat_lt
      omega
    have shape := encoded_long long
    obtain ⟨r, run, value, bound⟩ := readLoop_sevens 0 (onSevens 8 (v.toNat / 256) _ shape) (by decide)
      nothing
    have byte : (encoded v ++ rest)[8]? = some v.toUInt8 := by
      rw [shape, List.append_assoc, List.getElem?_append_right (by simp)]
      simp
    have joined : ((r <<< 8) ||| v.toUInt8.toUInt64).toNat =
        r.toNat * 2 ^ 8 + v.toUInt8.toUInt64.toNat :=
      toNat_shift_or 8 (by decide) (by rw [value, Nat.mod_eq_of_lt top]; simpa using top)
        (by simp; omega)
    rw [read, run, readLoop, byte, nine]
    simp only [Option.bind_eq_bind, Option.bind_some, Option.pure_def, Option.some.injEq,
      Prod.mk.injEq, and_true]
    apply UInt64.toNat_inj.mp
    refine joined.trans ?_
    rw [value, Nat.mod_eq_of_lt top]
    simp
    omega
  · have short := UInt64.not_lt.mp long
    obtain ⟨positive, atMost, bound⟩ := lt_of_len short
    have shape := encoded_short short
    obtain ⟨n, count⟩ : ∃ n, len v = n + 1 := ⟨len v - 1, by omega⟩
    rw [count, Nat.add_sub_cancel] at shape
    obtain ⟨r, run, value, limit⟩ := readLoop_sevens (8 - n) (onSevens n (v.toNat / 128) _ shape)
      (by omega) nothing
    have top : v.toNat / 128 < 128 ^ n := by
      rw [count, Nat.pow_succ] at bound
      exact Nat.div_lt_of_lt_mul (by rwa [Nat.mul_comm])
    have byte : (encoded v ++ rest)[0 + n]? = some (UInt8.ofNat (v.toNat % 128)) := by
      rw [shape, List.append_assoc, List.getElem?_append_right (by simp)]
      simp
    have table : ∀ b : Nat, b < 128 → UInt8.ofNat b &&& 0x80 = 0 ∧
        (UInt8.ofNat b).toUInt64.toNat = b := by decide +kernel
    obtain ⟨noFlag, group⟩ := table _ (Nat.mod_lt v.toNat (by decide : 0 < 128))
    have room : r.toNat < 2 ^ (64 - 7) := by
      refine limit.trans_le ?_
      calc 128 ^ (0 + n) ≤ 128 ^ 7 := Nat.pow_le_pow_right (by decide) (by omega)
        _ ≤ 2 ^ (64 - 7) := by decide
    have joined : ((r <<< 7) ||| (UInt8.ofNat (v.toNat % 128)).toUInt64).toNat =
        r.toNat * 2 ^ 7 + (UInt8.ofNat (v.toNat % 128)).toUInt64.toNat :=
      toNat_shift_or 7 (by decide) room (by rw [group]; exact Nat.mod_lt _ (by decide))
    rw [group] at joined
    rw [read, show (8 : Nat) = 8 - n + n by omega, run,
      show 8 - n = (7 - n) + 1 by omega, readLoop, byte, count]
    simp only [Option.bind_eq_bind, Option.bind_some, if_pos noFlag, Option.pure_def,
      Option.some.injEq, Prod.mk.injEq, Nat.zero_add, and_true]
    apply UInt64.toNat_inj.mp
    refine joined.trans ?_
    rw [value, Nat.mod_eq_of_lt top]
    simp
    omega

/-! ## Any bytes -/

/-- A number ends at byte `i`: it is the ninth, or one without the flag. -/
def EndsAt (data : Bytes) (i : Nat) : Prop :=
  ∃ byte, data[i]? = some byte ∧ (i = 8 ∨ i < 8 ∧ byte &&& 0x80 = 0)

/-- The loop goes on behind a byte with the flag. -/
theorem readLoop_succ {data : Bytes} {rounds i : Nat} {result : UInt64} {byte : UInt8}
    (here : data[i]? = some byte) :
    readLoop data (rounds + 1) i result =
      if byte &&& 0x80 = 0 then some ((result <<< 7) ||| byte.toUInt64, i + 1)
      else readLoop data rounds (i + 1) ((result <<< 7) ||| (byte &&& 0x7f).toUInt64) := by
  rw [readLoop, here]
  rfl

/-- Seven bits more. -/
theorem shifted_lt {r b : UInt64} {i : Nat} (few : i < 8) (small : r.toNat < 128 ^ i)
    (low : b.toNat < 128) : ((r <<< 7) ||| b).toNat < 128 ^ (i + 1) := by
  have room : r.toNat < 2 ^ (64 - 7) := by
    refine small.trans_le ?_
    calc 128 ^ i ≤ 128 ^ 7 := Nat.pow_le_pow_right (by decide) (by omega)
      _ ≤ 2 ^ (64 - 7) := by decide
  have joined : ((r <<< 7) ||| b).toNat = r.toNat * 2 ^ 7 + b.toNat :=
    toNat_shift_or 7 (by decide) room low
  rw [joined]
  calc r.toNat * 2 ^ 7 + b.toNat < (r.toNat + 1) * 128 := by omega
    _ ≤ 128 ^ i * 128 := Nat.mul_le_mul_right _ small
    _ = 128 ^ (i + 1) := (Nat.pow_succ 128 i).symm

theorem masked_lt (byte : UInt8) : (byte &&& 0x7f).toUInt64.toNat < 128 := by
  have table : ∀ b : Nat, b < 256 → (UInt8.ofNat b &&& 0x7f).toUInt64.toNat < 128 := by
    decide +kernel
  simpa using table byte.toNat byte.toNat_lt

theorem unflagged_lt {byte : UInt8} (clear : byte &&& 0x80 = 0) : byte.toUInt64.toNat < 128 := by
  have table : ∀ b : Nat, b < 256 → UInt8.ofNat b &&& 0x80 = 0 →
      (UInt8.ofNat b).toUInt64.toNat < 128 := by decide +kernel
  have small := table byte.toNat byte.toNat_lt
  rw [UInt8.ofNat_toNat] at small
  exact small clear

/-- **Up to eight bytes** carry seven bits each. -/
theorem readLoop_value {data : Bytes} {rounds i : Nat} {result value : UInt64} {n : Nat}
    (found : readLoop data rounds i result = some (value, n)) (few : i + rounds = 8)
    (small : result.toNat < 128 ^ i) : n ≤ 9 ∧ (n ≤ 8 → value.toNat < 128 ^ n) := by
  induction rounds generalizing i result with
  | zero =>
      rw [readLoop] at found
      cases last : data[8]? with
      | none => simp [last] at found
      | some byte =>
          simp only [last] at found
          obtain ⟨-, rfl⟩ := Prod.mk.inj (Option.some.inj found)
          exact ⟨le_rfl, fun few => absurd few (by decide)⟩
  | succ rounds ih =>
      cases here : data[i]? with
      | none => simp [readLoop, here] at found
      | some byte =>
          rw [readLoop_succ here] at found
          split at found
          · rename_i clear
            obtain ⟨rfl, rfl⟩ := Prod.mk.inj (Option.some.inj found)
            exact ⟨by omega, fun _ => shifted_lt (by omega) small (unflagged_lt clear)⟩
          · exact ih found (by omega) (shifted_lt (by omega) small (masked_lt byte))

/-- The loop finds nothing if the number does not end. -/
theorem readLoop_eq_none {data : Bytes} {rounds i : Nat} {result : UInt64} (few : i + rounds = 8) :
    readLoop data rounds i result = none ↔ ∀ j, i ≤ j → ¬ EndsAt data j := by
  induction rounds generalizing i result with
  | zero =>
      obtain rfl : i = 8 := by omega
      rw [readLoop]
      cases last : data[8]? with
      | none =>
          refine iff_of_true rfl ?_
          rintro j le ⟨byte, held, rfl | ⟨less, -⟩⟩
          · rw [last] at held
            cases held
          · omega
      | some byte =>
          refine iff_of_false nofun fun all => ?_
          exact all 8 le_rfl ⟨byte, last, .inl rfl⟩
  | succ rounds ih =>
      cases here : data[i]? with
      | none =>
          refine iff_of_true ?_ ?_
          · rw [readLoop, here]
            rfl
          · rintro j le ⟨byte, held, -⟩
            obtain ⟨within, -⟩ := List.getElem?_eq_some_iff.mp held
            have beyond := List.getElem?_eq_none_iff.mp here
            omega
      | some byte =>
          rw [readLoop_succ here]
          split
          · rename_i clear
            refine iff_of_false nofun fun all => ?_
            exact all i le_rfl ⟨byte, here, .inr ⟨by omega, clear⟩⟩
          · rename_i flagged
            rw [ih (by omega)]
            constructor
            · rintro later j le ends
              rcases le.eq_or_lt with rfl | less
              · obtain ⟨byte', held, rfl | ⟨-, clear⟩⟩ := ends
                · omega
                · rw [here] at held
                  obtain rfl := Option.some.inj held
                  exact flagged clear
              · exact later j less ends
            · exact fun all j le => all j (by omega)

theorem len_le_of_lt {v : UInt64} {n : Nat} (positive : 0 < n) (few : n ≤ 8)
    (small : v.toNat < 128 ^ n) : len v ≤ n := by
  unfold len
  simp only [UInt64.le_iff_toNat_le, UInt64.reduceToNat]
  interval_cases n
  all_goals repeat' split
  all_goals omega

/-- What decodes to a value takes at least the bytes that are written for it. -/
theorem len_le_of_read {data : Bytes} {v : UInt64} {n : Nat} (found : read data = some (v, n)) :
    len v ≤ n := by
  obtain ⟨nine, small⟩ := readLoop_value found rfl (by decide)
  obtain ⟨positive, -⟩ := read_bounds found
  by_cases few : n ≤ 8
  · exact len_le_of_lt positive few (small few)
  · exact (len_le_nine v).trans (by omega)

/-- **The encoding is exact.** `len`, `write` and `read` agree on every value, nothing shorter
decodes to it, and of any bytes `read` takes nine at most, and fails exactly on those in which no
number ends. -/
theorem encoding_exact :
    (∀ (v : UInt64) (out : Bytes),
      (write out v).1 = out ++ (write [] v).1 ∧ (write out v).2 = len v ∧
        (write [] v).1.length = len v ∧ 1 ≤ len v ∧ len v ≤ 9) ∧
    (∀ (v : UInt64) (t : Bytes), read ((write [] v).1 ++ t) = some (v, len v)) ∧
    (∀ (v : UInt64) (s : Bytes), s.length < len v → ∀ n, read s ≠ some (v, n)) ∧
    ∀ data : Bytes, (∀ v n, read data = some (v, n) → n ≤ 9 ∧ n ≤ data.length) ∧
      (read data = none ↔ ¬ ∃ i, EndsAt data i) := by
  refine ⟨fun v out => ⟨write_eq out v, ?_, length_encoded v, one_le_len v, len_le_nine v⟩,
    read_encoded, ?_, fun data => ⟨fun v n found => ?_, ?_⟩⟩
  · unfold write
    split
    · rename_i long
      rw [← length_encoded, encoded_long long, List.length_append, length_sevens]
      rfl
    · rfl
  · intro v s shorter n found
    have least := len_le_of_read found
    have most := (read_bounds found).2
    omega
  · exact ⟨(readLoop_value found rfl (by decide)).1, (read_bounds found).2⟩
  · rw [read, readLoop_eq_none rfl, not_exists]
    exact ⟨fun all i => all i (Nat.zero_le i), fun all i _ => all i⟩

end Squrust.Core.Varint
