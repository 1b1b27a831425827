import Squrust.Core.BTree.NodeCodec
import Squrust.Core.Disk
import Squrust.Core.Storage.Header

/-!
# The main file

The pages of the main file by their ids, which start at 1. A page past the end
of the file is none; writing one lets the file grow. A new file gets a header
and an empty tree on page 1, an old one is opened when its header passes the
checks.

A written page is read back, the other pages of the file stay
(`pageAt_pwrite_self`, `pageAt_pwrite_of_ne`).
-/

set_option autoImplicit false

namespace Squrust.Core

open Squrust.Foundation

/-- `PageId` 1 is at the front. -/
def pageOffset (id : PageId) : Nat := (id.toNat - 1) * pageSize

/-- A page of a file, if the file reaches that far. -/
def pageAt (file : Bytes) (id : PageId) : Option PageData :=
  if id = 0 then none
  else if within : pageOffset id + pageSize ≤ file.length then
    some ⟨(file.drop (pageOffset id)).take pageSize, by
      rw [List.length_take, List.length_drop]
      omega⟩
  else none

namespace DatabaseFile

/-- The header, and an empty leaf for the catalog. -/
def init (header : DbHeader) : Exec Disk StorageError Unit := do
  let page ← Exec.lift (Node.emptyLeaf.serializeInto ⟨1, header.writeInto PageData.zero⟩)
  Disk.writeMain 0 page.data.val
  Disk.syncAll

/-- Open the file; a missing or empty one is initialised. -/
def openFile : Exec Disk StorageError DbHeader := do
  let disk ← get
  if disk.main.length = 0 then do
    init DbHeader.default
    return DbHeader.default
  else
    match pread disk.main 0 pageSize with
    | some first => Exec.lift (DbHeader.readFrom first)
    | none => Exec.err (.io "failed to fill whole buffer")

/-- Number of full pages currently in the file. -/
def pageCount : Exec Disk StorageError UInt32 := do
  return UInt32.ofNat ((← get).main.length / pageSize)

/-- `(id as u64 - 1) * PAGE_SIZE as u64`. -/
def offset (id : PageId) : Outcome StorageError Nat :=
  if id = 0 then .panic "attempt to subtract with overflow" else .ok (pageOffset id)

def readPage (id : PageId) : Exec Disk StorageError (Option PageData) := do
  return pageAt (← get).main id

def writePage (id : PageId) (data : PageData) : Exec Disk StorageError Unit := do
  let off ← Exec.lift (offset id)
  Disk.writeMain off data.val

/-- Overwrite just the header region of page 1. -/
def writeHeader (header : DbHeader) : Exec Disk StorageError Unit := do
  let page := (← readPage 1).getD PageData.zero
  writePage 1 (header.writeInto page)

def sync : Exec Disk StorageError Unit := Disk.syncAll

end DatabaseFile

/-! ## Pages of a written file -/

variable {file : Bytes} {id other : PageId} {data : PageData}

theorem pageAt_eq_some :
    pageAt file id = some data ↔ id ≠ 0 ∧ pread file (pageOffset id) pageSize = some data.val := by
  unfold pageAt pread
  split
  · next zero => simp [zero]
  · next real =>
    split
    · next within => simp [real, Subtype.ext_iff]
    · simp

/-- A file of one page. -/
theorem pageAt_one (data : PageData) : pageAt data.val 1 = some data := by
  refine pageAt_eq_some.mpr ⟨by decide, ?_⟩
  have within : pageOffset 1 + pageSize ≤ data.val.length := by
    rw [data.property]
    decide
  have front : pageOffset 1 = 0 := rfl
  rw [pread, if_pos within, front, List.drop_zero, List.take_of_length_le data.property.le]

theorem pageAt_pwrite_self (real : id ≠ 0) :
    pageAt (pwrite file (pageOffset id) data.val) id = some data := by
  have back := pread_pwrite file data.val (pageOffset id)
  rw [data.property] at back
  exact pageAt_eq_some.mpr ⟨real, back⟩

/-- The other pages of a file stay. -/
theorem pageAt_pwrite_of_ne {held : PageData} (real : id ≠ 0) (different : other ≠ id)
    (here : pageAt file other = some held) :
    pageAt (pwrite file (pageOffset id) data.val) other = some held := by
  obtain ⟨otherReal, found⟩ := pageAt_eq_some.mp here
  have within : pageOffset other + pageSize ≤ file.length := by
    unfold pread at found
    split at found
    · next within => exact within
    · cases found
  refine pageAt_eq_some.mpr ⟨otherReal, ?_⟩
  rw [← found]
  have idPos : 0 < id.toNat := UInt32.pos_iff_ne_zero.mpr real
  have otherPos : 0 < other.toNat := UInt32.pos_iff_ne_zero.mpr otherReal
  have apart : other.toNat ≠ id.toNat := fun same => different (UInt32.toNat_inj.mp same)
  rcases Nat.lt_or_gt_of_ne apart with before | after
  · refine pread_pwrite_of_le within ?_
    simp only [pageOffset]
    have : (other.toNat - 1 + 1) * pageSize ≤ (id.toNat - 1) * pageSize :=
      Nat.mul_le_mul_right _ (by omega)
    rw [Nat.add_mul, Nat.one_mul] at this
    exact this
  · refine pread_pwrite_of_ge within ?_
    rw [data.property]
    simp only [pageOffset]
    have : (id.toNat - 1 + 1) * pageSize ≤ (other.toNat - 1) * pageSize :=
      Nat.mul_le_mul_right _ (by omega)
    rw [Nat.add_mul, Nat.one_mul] at this
    exact this

end Squrust.Core
