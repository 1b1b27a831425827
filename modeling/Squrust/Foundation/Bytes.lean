import Mathlib.Data.List.Basic
import Mathlib.Data.List.Induction
import Mathlib.Tactic.Ring

/-!
# Byte strings, big-endian numbers and files

A buffer is a list of bytes. Three operations on buffers are shared by every
on-disk format: numbers in big-endian order (`bigEndian`, `ofBigEndian`),
copying a byte string over a range of a buffer of fixed length (`splice`), and
positioned reads and writes of a file, which grows and is filled with zeros
when a write starts past its end (`pread`, `pwrite`, `setLen`).

A copy is described by what surrounds the range (`splice_append`), a file by
which ranges a write leaves alone (`pread_pwrite_of_le`, `pread_pwrite_of_ge`).
-/

set_option autoImplicit false

namespace Squrust.Foundation

/-- A byte string. -/
abbrev Bytes := List UInt8

/-! ## Numbers in big-endian order -/

/-- The last `width` base-256 digits of a number, most significant first. -/
def bigEndian : Nat → Nat → Bytes
  | 0, _ => []
  | width + 1, value => UInt8.ofNat (value / 256 ^ width) :: bigEndian width value

/-- The number a byte string spells in base 256. -/
def ofBigEndian (bytes : Bytes) : Nat :=
  bytes.foldl (fun value byte => value * 256 + byte.toNat) 0

@[simp] theorem length_bigEndian (width value : Nat) : (bigEndian width value).length = width := by
  induction width with
  | zero => rfl
  | succ width ih => simp [bigEndian, ih]

theorem foldl_bigEndian (width value start : Nat) :
    (bigEndian width value).foldl (fun value byte => value * 256 + byte.toNat) start =
      start * 256 ^ width + value % 256 ^ width := by
  induction width generalizing start with
  | zero => simp [bigEndian, Nat.mod_one]
  | succ width ih =>
      have digits : value % 256 ^ (width + 1) =
          256 ^ width * (value / 256 ^ width % 256) + value % 256 ^ width := by
        rw [Nat.pow_succ, Nat.mod_mul]
        ring
      simp only [bigEndian, List.foldl_cons, ih, UInt8.toNat_ofNat', Nat.reducePow, digits]
      ring

/-- Reading back the digits gives the number, up to what they can hold. -/
theorem ofBigEndian_bigEndian (width value : Nat) :
    ofBigEndian (bigEndian width value) = value % 256 ^ width := by
  simp [ofBigEndian, foldl_bigEndian]

theorem ofBigEndian_bigEndian_of_lt {width value : Nat} (small : value < 256 ^ width) :
    ofBigEndian (bigEndian width value) = value := by
  rw [ofBigEndian_bigEndian, Nat.mod_eq_of_lt small]

/-- A byte string of some length spells a number below that power of 256. -/
theorem ofBigEndian_lt (bytes : Bytes) : ofBigEndian bytes < 256 ^ bytes.length := by
  induction bytes using List.reverseRecOn with
  | nil => simp [ofBigEndian]
  | append_singleton bytes byte ih =>
      have digit := byte.toNat_lt
      rw [ofBigEndian] at ih ⊢
      rw [List.foldl_append, List.foldl_cons, List.foldl_nil, List.length_append,
        List.length_singleton, Nat.pow_succ]
      omega

/-- The number in the bytes from `offset` on. -/
def field (buf : Bytes) (offset count : Nat) : Nat := ofBigEndian ((buf.drop offset).take count)

theorem field_lt (buf : Bytes) (offset count : Nat) : field buf offset count < 256 ^ count := by
  refine (ofBigEndian_lt _).trans_le (Nat.pow_le_pow_right (by decide) ?_)
  exact List.length_take_le _ _

/-- A field stands behind the bytes before it. -/
theorem field_append {before bytes after : Bytes} {offset count : Nat}
    (start : before.length = offset) (size : bytes.length = count) :
    field (before ++ (bytes ++ after)) offset count = ofBigEndian bytes := by
  rw [field, ← start, List.drop_left, ← size, List.take_left]

/-! ## Copying over a range of a buffer -/

/-- Copy a byte string over the range of the buffer that starts at `offset`;
there is no such range when it would end past the buffer. -/
def splice (buffer : Bytes) (offset : Nat) (bytes : Bytes) : Option Bytes :=
  if offset + bytes.length ≤ buffer.length then
    some (buffer.take offset ++ bytes ++ buffer.drop (offset + bytes.length))
  else none

theorem length_of_splice {buffer bytes result : Bytes} {offset : Nat}
    (spliced : splice buffer offset bytes = some result) : result.length = buffer.length := by
  unfold splice at spliced
  split at spliced
  · next fits =>
    rw [← Option.some.inj spliced]
    simp only [List.length_append, List.length_take, List.length_drop]
    omega
  · cases spliced

/-- A copy replaces exactly the part of the buffer it covers. -/
theorem splice_append {before covered after bytes : Bytes} {offset : Nat}
    (start : before.length = offset) (same : covered.length = bytes.length) :
    splice (before ++ covered ++ after) offset bytes = some (before ++ bytes ++ after) := by
  subst start
  have fits : before.length + bytes.length ≤ (before ++ covered ++ after).length := by
    simp only [List.length_append]
    omega
  have rest : (before ++ covered ++ after).drop (before.length + bytes.length) = after := by
    rw [← same, List.append_assoc, ← List.drop_drop, List.drop_left, List.drop_left]
  rw [splice, if_pos fits, rest, List.append_assoc before, List.take_left]

/-! ## Files -/

/-- The bytes in a range of a file, if the file reaches that far. -/
def pread (file : Bytes) (offset count : Nat) : Option Bytes :=
  if offset + count ≤ file.length then some ((file.drop offset).take count) else none

/-- Write at a position. The file grows when needed; a gap reads as zeros. -/
def pwrite (file : Bytes) (offset : Nat) (bytes : Bytes) : Bytes :=
  let reached := file ++ List.replicate (offset - file.length) 0
  reached.take offset ++ bytes ++ reached.drop (offset + bytes.length)

/-- Cut a file to a length, or fill it up with zeros. -/
def setLen (file : Bytes) (length : Nat) : Bytes :=
  file.take length ++ List.replicate (length - file.length) 0

@[simp] theorem length_pwrite (file bytes : Bytes) (offset : Nat) :
    (pwrite file offset bytes).length = max file.length (offset + bytes.length) := by
  simp only [pwrite, List.length_append, List.length_take, List.length_drop, List.length_replicate]
  omega

theorem setLen_of_le {file : Bytes} {length : Nat} (within : length ≤ file.length) :
    setLen file length = file.take length := by
  simp [setLen, Nat.sub_eq_zero_of_le within]

theorem length_of_pread {file bytes : Bytes} {offset count : Nat}
    (found : pread file offset count = some bytes) : bytes.length = count := by
  unfold pread at found
  split at found
  · rw [← Option.some.inj found, List.length_take, List.length_drop]
    omega
  · cases found

/-- A write at the end of a prefix that is kept. -/
theorem pwrite_append {kept rest bytes : Bytes} {offset : Nat} (start : kept.length = offset) :
    pwrite (kept ++ rest) offset bytes = kept ++ bytes ++ rest.drop bytes.length := by
  subst start
  have noGap : kept.length - (kept ++ rest).length = 0 := by simp
  simp only [pwrite, noGap, List.replicate_zero, List.append_nil, List.take_left,
    ← List.drop_drop, List.drop_left]

/-- A write is read back. -/
theorem pread_pwrite (file bytes : Bytes) (offset : Nat) :
    pread (pwrite file offset bytes) offset bytes.length = some bytes := by
  have reaches : offset + bytes.length ≤ (pwrite file offset bytes).length := by simp
  have before : ((file ++ List.replicate (offset - file.length) 0).take offset).length = offset := by
    simp only [List.length_take, List.length_append, List.length_replicate]
    omega
  rw [pread, if_pos reaches, pwrite, List.append_assoc, List.drop_left' before, List.take_left]

/-- Bytes before a write stay, where the file had them. -/
theorem pread_pwrite_of_le {file bytes : Bytes} {offset start count : Nat}
    (inFile : start + count ≤ file.length) (before : start + count ≤ offset) :
    pread (pwrite file offset bytes) start count = pread file start count := by
  have reaches : start + count ≤ (pwrite file offset bytes).length := by
    rw [length_pwrite]
    omega
  rw [pread, pread, if_pos reaches, if_pos inFile, pwrite]
  congr 1
  apply List.ext_getElem?
  intro index
  by_cases within : index < count
  · simp only [List.getElem?_take, if_pos within, List.getElem?_drop]
    rw [List.append_assoc, List.getElem?_append_left, List.getElem?_take, if_pos (by omega),
      List.getElem?_append_left (by omega)]
    simp only [List.length_take, List.length_append, List.length_replicate]
    omega
  · simp [within]

/-- Bytes after a write stay. -/
theorem pread_pwrite_of_ge {file bytes : Bytes} {offset start count : Nat}
    (inFile : start + count ≤ file.length) (after : offset + bytes.length ≤ start) :
    pread (pwrite file offset bytes) start count = pread file start count := by
  have reaches : start + count ≤ (pwrite file offset bytes).length := by
    rw [length_pwrite]
    omega
  have noGap : offset - file.length = 0 := by omega
  have front : ((file.take offset) ++ bytes).length = offset + bytes.length := by
    simp only [List.length_append, List.length_take]
    omega
  rw [pread, pread, if_pos reaches, if_pos inFile, pwrite]
  simp only [noGap, List.replicate_zero, List.append_nil]
  obtain ⟨gap, rfl⟩ : ∃ gap, start = offset + bytes.length + gap :=
    ⟨start - (offset + bytes.length), by omega⟩
  rw [← List.drop_drop, List.drop_left' front, List.drop_drop]

end Squrust.Foundation
