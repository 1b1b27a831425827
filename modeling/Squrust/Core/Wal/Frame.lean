import Squrust.Core.Page

/-!
# Frames of the log

A frame is one page of one commit: a header with the page id, the commit
version, the database size after the commit, the log's salt and a checksum, and
then the page. The size is not 0 on the last frame of a commit only, which marks
the commit. A frame reads back from its bytes, whatever follows them
(`WalFrame.decode_encode`).
-/

set_option autoImplicit false

namespace Squrust.Core

open Squrust.Foundation

abbrev frameHeaderSize : Nat := 32

abbrev frameSize : Nat := frameHeaderSize + pageSize

/-- One page of one commit. -/
structure WalFrame where
  pageId : PageId
  commitVersion : UInt64
  /-- Database size in pages after this commit; 0 for frames that do not end one. -/
  dbSizeAfter : UInt32
  salt : UInt32
  data : PageData
deriving DecidableEq

namespace WalFrame

def isCommit (frame : WalFrame) : Bool := frame.dbSizeAfter != 0

/-- FNV-1a over the meaningful header bytes and the page. -/
def checksum (headerPrefix data : Bytes) : UInt64 :=
  (headerPrefix ++ data).foldl (fun h b => (h ^^^ b.toUInt64) * 0x00000100000001b3)
    0xcbf29ce484222325

/-- The first 20 bytes of the header. -/
def headerPrefix (frame : WalFrame) : Bytes :=
  bigEndian 4 frame.pageId.toNat ++ (bigEndian 8 frame.commitVersion.toNat ++
    (bigEndian 4 frame.dbSizeAfter.toNat ++ bigEndian 4 frame.salt.toNat))

/-- Header prefix, checksum, four reserved zeros, and the page. -/
def encode (frame : WalFrame) : Bytes :=
  let ck := checksum frame.headerPrefix frame.data.val
  frame.headerPrefix ++ (bigEndian 8 ck.toNat ++ (List.replicate 4 0 ++ frame.data.val))

def decode (buf : Bytes) : Outcome StorageError WalFrame :=
  if short : buf.length < frameSize then
    .err (.corruptWal ("short frame: " ++ toString buf.length ++ " bytes"))
  else
    let pageId := UInt32.ofNat (field buf 0 4)
    let commitVersion := UInt64.ofNat (field buf 4 8)
    let dbSizeAfter := UInt32.ofNat (field buf 12 4)
    let salt := UInt32.ofNat (field buf 16 4)
    let storedCk := UInt64.ofNat (field buf 20 8)
    let data : PageData := ⟨(buf.drop frameHeaderSize).take pageSize, by
      rw [List.length_take, List.length_drop]
      simp only [frameSize] at short
      omega⟩
    let ck := checksum (buf.take 20) data.val
    if ck ≠ storedCk then .err (.corruptWal "checksum mismatch")
    else .ok ⟨pageId, commitVersion, dbSizeAfter, salt, data⟩

@[simp] theorem length_headerPrefix (frame : WalFrame) : frame.headerPrefix.length = 20 := by
  simp [headerPrefix]

@[simp] theorem length_encode (frame : WalFrame) : frame.encode.length = frameSize := by
  have page := frame.data.property
  simp only [encode, List.length_append, length_headerPrefix, length_bigEndian,
    List.length_replicate, page]
  rfl

/-- **Round trip.** A frame reads back, whatever follows it. -/
theorem decode_encode (frame : WalFrame) (rest : Bytes) :
    decode (frame.encode ++ rest) = .ok frame := by
  have long : ¬ (frame.encode ++ rest).length < frameSize := by simp
  have size := frame.data.property
  have prefixTaken : (frame.encode ++ rest).take 20 = frame.headerPrefix := by
    rw [encode, List.append_assoc, List.take_left' (length_headerPrefix frame)]
  have body : ((frame.encode ++ rest).drop frameHeaderSize).take pageSize = frame.data.val := by
    have front : frame.encode ++ rest = (frame.headerPrefix ++ (bigEndian 8
        (checksum frame.headerPrefix frame.data.val).toNat ++ List.replicate 4 0)) ++
        (frame.data.val ++ rest) := by
      simp only [encode, List.append_assoc]
    rw [front, List.drop_left' (by simp), List.take_left' size]
  have whole : frame.encode ++ rest = bigEndian 4 frame.pageId.toNat ++
      (bigEndian 8 frame.commitVersion.toNat ++ (bigEndian 4 frame.dbSizeAfter.toNat ++
      (bigEndian 4 frame.salt.toNat ++ (bigEndian 8
        (checksum frame.headerPrefix frame.data.val).toNat ++
        (List.replicate 4 0 ++ (frame.data.val ++ rest)))))) := by
    simp only [encode, headerPrefix, List.append_assoc]
  have pageId : field (frame.encode ++ rest) 0 4 = frame.pageId.toNat := by
    have front : field ([] ++ (frame.encode ++ rest)) 0 4 =
        ofBigEndian (bigEndian 4 frame.pageId.toNat) := by
      rw [whole]
      exact field_append List.length_nil (length_bigEndian _ _)
    rw [← List.nil_append (frame.encode ++ rest), front]
    exact ofBigEndian_bigEndian_of_lt frame.pageId.toNat_lt
  have version : field (frame.encode ++ rest) 4 8 = frame.commitVersion.toNat := by
    rw [whole, field_append (length_bigEndian _ _) (length_bigEndian _ _)]
    exact ofBigEndian_bigEndian_of_lt frame.commitVersion.toNat_lt
  have dbSize : field (frame.encode ++ rest) 12 4 = frame.dbSizeAfter.toNat := by
    rw [whole, ← List.append_assoc, field_append (by simp) (length_bigEndian _ _)]
    exact ofBigEndian_bigEndian_of_lt frame.dbSizeAfter.toNat_lt
  have salt : field (frame.encode ++ rest) 16 4 = frame.salt.toNat := by
    rw [whole, ← List.append_assoc, ← List.append_assoc,
      field_append (by simp) (length_bigEndian _ _)]
    exact ofBigEndian_bigEndian_of_lt frame.salt.toNat_lt
  have stored : field (frame.encode ++ rest) 20 8 =
      (checksum frame.headerPrefix frame.data.val).toNat := by
    rw [whole, ← List.append_assoc, ← List.append_assoc, ← List.append_assoc,
      field_append (by simp) (length_bigEndian _ _)]
    exact ofBigEndian_bigEndian_of_lt (checksum frame.headerPrefix frame.data.val).toNat_lt
  rw [decode, dif_neg long]
  simp only [pageId, version, dbSize, salt, stored, prefixTaken, body, UInt32.ofNat_toNat,
    UInt64.ofNat_toNat, ne_eq, not_true_eq_false, if_false]

end WalFrame

end Squrust.Core
