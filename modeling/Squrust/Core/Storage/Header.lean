import Squrust.Core.Page

/-!
# The database header

The first 100 bytes of page 1. Writing the header replaces exactly these bytes;
a file is opened only when they begin with the magic string and name the page
size. What is written is read back (`DbHeader.readFrom_writeInto`).
-/

set_option autoImplicit false

namespace Squrust.Core

open Squrust.Foundation

/-- The string at offset 0, with the final NUL: `SQLite format 3`. -/
def magic : Bytes :=
  [0x53, 0x51, 0x4c, 0x69, 0x74, 0x65, 0x20, 0x66, 0x6f, 0x72, 0x6d, 0x61, 0x74, 0x20, 0x33, 0x00]

structure DbHeader where
  pageSize : UInt32
  dbSizePages : UInt32
  changeCounter : UInt32
  schemaCookie : UInt32
  freelistTrunk : UInt32
  freelistCount : UInt32
  /-- The `PRAGMA user_version` value. -/
  userVersion : UInt32
deriving DecidableEq

namespace DbHeader

/-- The header of a new file. -/
def default : DbHeader := ⟨4096, 1, 1, 0, 0, 0, 0⟩

def putU32 (value : UInt32) : Bytes := bigEndian 4 value.toNat

/-- What is written behind the magic string, in the order of the offsets: page size (16), versions,
reserved space and payload fractions (18), change counter (24), size (28), freelist (32, 36),
schema cookie and format (40, 44), cache size and largest root (48, 52), encoding (56), user
version (60), vacuum mode and application id (64, 68), reserved, and the change counter and the
library version once more (92, 96). -/
def fields (header : DbHeader) : Bytes :=
  let ps := if header.pageSize = 65536 then 1 else header.pageSize.toNat
  bigEndian 2 ps ++ ([1, 1, 0, 64, 32, 32] ++ (putU32 header.changeCounter ++
    (putU32 header.dbSizePages ++ (putU32 header.freelistTrunk ++ (putU32 header.freelistCount ++
    (putU32 header.schemaCookie ++ (putU32 4 ++ (putU32 0 ++ (putU32 0 ++ (putU32 1 ++
    (putU32 header.userVersion ++ (putU32 0 ++ (putU32 0 ++ (List.replicate 20 0 ++
    (putU32 header.changeCounter ++ putU32 3045000)))))))))))))))

/-- The 100 bytes. -/
def bytes (header : DbHeader) : Bytes := magic ++ header.fields

@[simp] theorem length_bytes (header : DbHeader) : header.bytes.length = headerSize := by
  simp [bytes, fields, putU32, magic]

/-- Replace the first 100 bytes of a page. -/
def writeInto (header : DbHeader) (page : PageData) : PageData :=
  ⟨header.bytes ++ page.val.drop headerSize, by
    rw [List.length_append, length_bytes, List.length_drop, page.property]
    rfl⟩

def readFrom (buf : Bytes) : Outcome StorageError DbHeader :=
  if buf.length < headerSize ∨ buf.take 16 ≠ magic then .err .badMagic
  else
    let rawPs := field buf 16 2
    let pageSize := if rawPs = 1 then 65536 else UInt32.ofNat rawPs
    if pageSize ≠ 4096 then .err (.badPageSize pageSize)
    else .ok
      { pageSize
        dbSizePages := UInt32.ofNat (field buf 28 4)
        changeCounter := UInt32.ofNat (field buf 24 4)
        schemaCookie := UInt32.ofNat (field buf 40 4)
        freelistTrunk := UInt32.ofNat (field buf 32 4)
        freelistCount := UInt32.ofNat (field buf 36 4)
        userVersion := UInt32.ofNat (field buf 60 4) }

/-! ## Reading back -/

/-- The bytes pass the checks of the header. -/
def Valid (buf : Bytes) : Prop := buf.take 16 = magic ∧ field buf 16 2 = 4096

instance (buf : Bytes) : Decidable (Valid buf) :=
  inferInstanceAs (Decidable (buf.take 16 = magic ∧ field buf 16 2 = 4096))

/-- A page is read as a header when it passes the checks. -/
theorem readFrom_ok_iff {page : PageData} :
    (∃ header, readFrom page.val = .ok header) ↔ Valid page.val := by
  have long : ¬ page.val.length < headerSize := by
    rw [page.property]
    decide
  have small := field_lt page.val 16 2
  have rawPs : (if field page.val 16 2 = 1 then 65536 else UInt32.ofNat (field page.val 16 2)) =
      4096 ↔ field page.val 16 2 = 4096 := by
    split
    · next one =>
      rw [one]
      decide
    · rw [← UInt32.toNat_inj, UInt32.toNat_ofNat', Nat.mod_eq_of_lt (by omega)]
      rfl
  simp only [readFrom, long, false_or, Valid]
  by_cases marked : page.val.take 16 = magic
  · by_cases sized : field page.val 16 2 = 4096
    · simp [marked, sized]
    · simp [marked, rawPs, sized]
  · simp [marked]

/-- The size of a header that is read. -/
theorem dbSizePages_readFrom {buf : Bytes} {header : DbHeader} (parsed : readFrom buf = .ok header) :
    header.dbSizePages = UInt32.ofNat (field buf 28 4) := by
  unfold readFrom at parsed
  split at parsed
  · cases parsed
  · dsimp only at parsed
    generalize (if field buf 16 2 = 1 then 65536 else UInt32.ofNat (field buf 16 2)) = size at parsed
    by_cases known : size = 4096
    · rw [if_neg (not_not.mpr known)] at parsed
      cases parsed
      rfl
    · rw [if_pos known] at parsed
      cases parsed

variable (header : DbHeader) (rest : Bytes)

theorem dbSizePages_bytes : field (header.bytes ++ rest) 28 4 = header.dbSizePages.toNat := by
  have here : ((header.bytes ++ rest).drop 28).take 4 = bigEndian 4 header.dbSizePages.toNat := rfl
  rw [field, here, ofBigEndian_bigEndian_of_lt header.dbSizePages.toNat_lt]

theorem userVersion_bytes : field (header.bytes ++ rest) 60 4 = header.userVersion.toNat := by
  have here : ((header.bytes ++ rest).drop 60).take 4 = bigEndian 4 header.userVersion.toNat := rfl
  rw [field, here, ofBigEndian_bigEndian_of_lt header.userVersion.toNat_lt]

theorem valid_bytes (ofPageSize : header.pageSize = 4096) : Valid (header.bytes ++ rest) := by
  refine ⟨rfl, ?_⟩
  have here : ((header.bytes ++ rest).drop 16).take 2 =
      bigEndian 2 (if header.pageSize = 65536 then 1 else header.pageSize.toNat) := rfl
  rw [field, here, ofPageSize]
  decide

@[simp] theorem drop_writeInto (page : PageData) :
    (header.writeInto page).val.drop headerSize = page.val.drop headerSize :=
  List.drop_left' (length_bytes header)

end DbHeader

end Squrust.Core
