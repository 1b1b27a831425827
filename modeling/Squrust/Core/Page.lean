import Squrust.Foundation.Bytes
import Squrust.Foundation.Outcome

/-!
# Pages and storage errors

The fixed-size unit of storage: an id and exactly `pageSize` bytes. The length
is part of the type of the bytes, so every operation on them carries it along,
and a copy past the end of a page is a panic.
-/

set_option autoImplicit false

namespace Squrust.Core

open Squrust.Foundation

/-- A page id; page 1 carries the file header. -/
abbrev PageId := UInt32

instance lawfulBEqPageId : LawfulBEq PageId := inferInstance

/-- Page size in bytes. -/
abbrev pageSize : Nat := 4096

/-- Length of the file header on page 1. -/
abbrev headerSize : Nat := 100

/-- Errors of the storage engine. -/
inductive StorageError where
  | io (cause : String)
  | badMagic
  | badPageSize (size : UInt32)
  | pageOutOfRange (id : PageId)
  | corruptWal (what : String)
  | corrupt (what : String)
  | conflict
  | readOnly
deriving DecidableEq, Repr

/-- The bytes of a page. -/
abbrev PageData := { bytes : Bytes // bytes.length = pageSize }

/-- A page. -/
structure RawPage where
  id : PageId
  data : PageData
deriving DecidableEq

/-- All zeros. -/
def PageData.zero : PageData := ⟨List.replicate pageSize 0, List.length_replicate⟩

/-- A fresh zeroed page. -/
def RawPage.new (id : PageId) : RawPage := ⟨id, PageData.zero⟩

namespace PageData

/-- `data[offset..offset + bytes.len()].copy_from_slice(bytes)`. -/
def copyFrom (data : PageData) (offset : Nat) (bytes : Bytes) : Outcome StorageError PageData :=
  match spliced : splice data.val offset bytes with
  | some result => .ok ⟨result, (length_of_splice spliced).trans data.property⟩
  | none => .panic "range end index out of range for slice"

theorem copyFrom_eq_ok {data result : PageData} {offset : Nat} {bytes : Bytes} :
    data.copyFrom offset bytes = .ok result ↔ splice data.val offset bytes = some result.val := by
  unfold copyFrom
  split
  · next spliced equation =>
    constructor
    · intro same
      rw [equation, ← Except.ok.inj same]
    · intro same
      exact congrArg Except.ok (Subtype.ext (Option.some.inj (equation.symm.trans same)))
  · next missing => simp [missing]

/-- `&data[offset..offset + count]`. -/
def slice (data : PageData) (offset count : Nat) : Outcome StorageError Bytes :=
  .orPanic "range end index out of range for slice" (pread data.val offset count)

/-- `&data[offset..]`. -/
def sliceFrom (data : PageData) (offset : Nat) : Outcome StorageError Bytes :=
  if offset ≤ data.val.length then .ok (data.val.drop offset)
  else .panic "range start index out of range for slice"

theorem sliceFrom_eq_ok {data : PageData} {offset : Nat} {bytes : Bytes} :
    data.sliceFrom offset = .ok bytes ↔ offset ≤ pageSize ∧ data.val.drop offset = bytes := by
  unfold sliceFrom
  rw [data.property]
  split
  · next within => simp [within]
  · next past => simp [past]

/-- A slice of a page whose bytes from there on are known. -/
theorem slice_eq_ok {data : PageData} {offset : Nat} {bytes rest : Bytes} (within : offset ≤ pageSize)
    (here : data.val.drop offset = bytes ++ rest) :
    data.slice offset bytes.length = .ok bytes := by
  have reaches : offset + bytes.length ≤ data.val.length := by
    have lengths := congrArg List.length here
    simp only [List.length_drop, List.length_append] at lengths
    have := data.property
    omega
  simp [slice, pread, if_pos reaches, here]

end PageData

end Squrust.Core
