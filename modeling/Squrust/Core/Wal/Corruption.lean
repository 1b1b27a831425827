import Squrust.Core.Wal.Frame
import Squrust.Foundation.Digest

/-!
# Damaged frames

A frame is refused when one of its bytes has changed, wherever that is in the part
the checksum is about or in the checksum itself; the four reserved bytes are not
looked at (`WalFrame.decode_changed`).

FNV-1a takes in a byte by an exclusive or and a product with an odd number, and both
can be undone (`separates_fnv`).
-/

set_option autoImplicit false

namespace Squrust.Core

open Squrust.Foundation

namespace WalFrame

/-! ## Digests of bytes -/

/-- FNV-1a can be undone: the factor is odd. -/
theorem separates_fnv :
    Separates fun (h : UInt64) (b : UInt8) => (h ^^^ b.toUInt64) * 0x00000100000001b3 := by
  have undone : ∀ h : UInt64, h * 0x00000100000001b3 * 0xce965057aff6957b = h := by
    intro h
    rw [UInt64.mul_assoc]
    exact UInt64.mul_one h
  have factor : ∀ {x y : UInt64}, x * 0x00000100000001b3 = y * 0x00000100000001b3 → x = y := by
    intro x y same
    rw [← undone x, same, undone]
  refine ⟨fun b h h' same => ?_, fun h b b' same => ?_⟩
  · exact (UInt64.xor_left_inj b.toUInt64).mp (factor same)
  · have bytes := (UInt64.xor_right_inj h).mp (factor same)
    exact UInt8.toUInt64_inj.mp bytes

/-- A number in base 256 is a digest of its digits. -/
theorem separates_base256 : Separates fun (value : Nat) (byte : UInt8) => value * 256 + byte.toNat := by
  refine ⟨fun byte value value' same => ?_, fun value byte byte' same => ?_⟩
  · have same : value * 256 + byte.toNat = value' * 256 + byte.toNat := same
    omega
  · have same : value * 256 + byte.toNat = value * 256 + byte'.toNat := same
    exact UInt8.toNat_inj.mp (by omega)

/-! ## The parts of a frame -/

/-- What is decoded from a header prefix, a checksum, four reserved bytes and a page. -/
theorem decode_parts {front stored reserved page : Bytes} (frontSize : front.length = 20)
    (storedSize : stored.length = 8) (reservedSize : reserved.length = 4)
    (pageLength : page.length = pageSize) :
    decode (front ++ (stored ++ (reserved ++ page))) =
      if checksum front page ≠ UInt64.ofNat (ofBigEndian stored) then
        .err (.corruptWal "checksum mismatch")
      else .ok ⟨UInt32.ofNat (field front 0 4), UInt64.ofNat (field front 4 8),
        UInt32.ofNat (field front 12 4), UInt32.ofNat (field front 16 4), ⟨page, pageLength⟩⟩ := by
  have long : ¬ (front ++ (stored ++ (reserved ++ page))).length < frameSize := by
    simp only [List.length_append, frontSize, storedSize, reservedSize, pageLength]
    decide
  have inFront : ∀ offset count, offset + count ≤ 20 →
      field (front ++ (stored ++ (reserved ++ page))) offset count = field front offset count := by
    intro offset count within
    rw [field, field, List.drop_append_of_le_length (by omega),
      List.take_append_of_le_length (by rw [List.length_drop]; omega)]
  have checks : field (front ++ (stored ++ (reserved ++ page))) 20 8 = ofBigEndian stored :=
    field_append frontSize storedSize
  have pages : ((front ++ (stored ++ (reserved ++ page))).drop frameHeaderSize).take pageSize =
      page := by
    rw [← List.append_assoc, ← List.append_assoc, List.drop_left' (by simp [*]),
      List.take_of_length_le (by omega)]
  have prefixes : (front ++ (stored ++ (reserved ++ page))).take 20 = front :=
    List.take_left' frontSize
  rw [decode, dif_neg long]
  simp only [inFront 0 4 (by omega), inFront 4 8 (by omega), inFront 12 4 (by omega),
    inFront 16 4 (by omega), checks, pages, prefixes]

/-- The bytes of a frame around its reserved ones. -/
theorem encode_parts (frame : WalFrame) : frame.encode = frame.headerPrefix ++
    (bigEndian 8 (checksum frame.headerPrefix frame.data.val).toNat ++
      (List.replicate 4 0 ++ frame.data.val)) := rfl

/-- Whatever the reserved bytes are, the frame is the same. -/
theorem decode_reserved (frame : WalFrame) {reserved : Bytes} (size : reserved.length = 4) :
    decode (frame.headerPrefix ++ (bigEndian 8 (checksum frame.headerPrefix frame.data.val).toNat ++
      (reserved ++ frame.data.val))) = .ok frame := by
  have zeros := decode_encode frame []
  rw [List.append_nil, encode_parts, decode_parts (length_headerPrefix frame) (length_bigEndian _ _)
    List.length_replicate frame.data.property] at zeros
  rw [decode_parts (length_headerPrefix frame) (length_bigEndian _ _) size frame.data.property]
  exact zeros

/-! ## One byte changed -/

/-- A byte of the header prefix. -/
theorem decode_changed_front (frame : WalFrame) {position : Nat} {byte : UInt8}
    (within : position < 20) (other : frame.headerPrefix[position]? ≠ some byte) :
    decode (frame.encode.set position byte) = .err (.corruptWal "checksum mismatch") := by
  have size := length_headerPrefix frame
  have differs : checksum (frame.headerPrefix.set position byte) frame.data.val ≠
      checksum frame.headerPrefix frame.data.val := by
    rw [checksum, checksum, ← List.set_append_left _ _ (by omega)]
    refine separates_fnv.foldl_set_ne (by rw [List.length_append]; omega) ?_ _
    rwa [List.getElem?_append_left (by omega)]
  rw [encode_parts, List.set_append_left _ _ (by omega),
    decode_parts (by rw [List.length_set, size]) (length_bigEndian _ _) List.length_replicate
      frame.data.property]
  rw [ofBigEndian_bigEndian_of_lt (UInt64.toNat_lt _), UInt64.ofNat_toNat, if_pos differs]

/-- A byte of the checksum. -/
theorem decode_changed_stored (frame : WalFrame) {position : Nat} {byte : UInt8}
    (within : position < 8)
    (other : (bigEndian 8 (checksum frame.headerPrefix frame.data.val).toNat)[position]? ≠ some byte) :
    decode (frame.encode.set (20 + position) byte) = .err (.corruptWal "checksum mismatch") := by
  have size := length_headerPrefix frame
  generalize ck_eq : checksum frame.headerPrefix frame.data.val = ck at other
  have width := length_bigEndian 8 ck.toNat
  have differs : ck ≠ UInt64.ofNat (ofBigEndian ((bigEndian 8 ck.toNat).set position byte)) := by
    intro same
    have digits := separates_base256.foldl_set_ne (by omega) other 0
    have bound := ofBigEndian_lt ((bigEndian 8 ck.toNat).set position byte)
    rw [List.length_set, width] at bound
    apply digits
    change ofBigEndian _ = ofBigEndian (bigEndian 8 ck.toNat)
    have value := congrArg UInt64.toNat same
    rw [UInt64.toNat_ofNat_of_lt' bound] at value
    rw [ofBigEndian_bigEndian_of_lt ck.toNat_lt, ← value]
  rw [encode_parts, ck_eq, List.set_append_right _ _ (by omega), size, Nat.add_sub_cancel_left,
    List.set_append_left _ _ (by omega),
    decode_parts size (by rw [List.length_set, width]) List.length_replicate frame.data.property, ck_eq,
    if_pos differs]

/-- A byte of the page. -/
theorem decode_changed_page (frame : WalFrame) {position : Nat} {byte : UInt8}
    (within : position < pageSize) (other : frame.data.val[position]? ≠ some byte) :
    decode (frame.encode.set (32 + position) byte) = .err (.corruptWal "checksum mismatch") := by
  have size := length_headerPrefix frame
  have page := frame.data.property
  generalize ck_eq : checksum frame.headerPrefix frame.data.val = ck
  have width := length_bigEndian 8 ck.toNat
  have differs : checksum frame.headerPrefix (frame.data.val.set position byte) ≠ ck := by
    rw [← ck_eq, checksum, checksum]
    have moved : frame.headerPrefix ++ frame.data.val.set position byte =
        (frame.headerPrefix ++ frame.data.val).set (20 + position) byte := by
      rw [List.set_append_right _ _ (by omega), size, Nat.add_sub_cancel_left]
    rw [moved]
    refine separates_fnv.foldl_set_ne (by rw [List.length_append]; omega) ?_ _
    rw [List.getElem?_append_right (by omega), size, Nat.add_sub_cancel_left]
    exact other
  have moved : frame.encode.set (32 + position) byte = frame.headerPrefix ++ (bigEndian 8 ck.toNat ++
      (List.replicate 4 0 ++ frame.data.val.set position byte)) := by
    rw [encode_parts, ck_eq, List.set_append_right _ _ (by omega), List.set_append_right _ _ (by omega),
      List.set_append_right _ _ (by rw [List.length_replicate]; omega), size, width,
      List.length_replicate]
    congr 4
    omega
  rw [moved, decode_parts size width List.length_replicate (by rw [List.length_set, page]),
    ofBigEndian_bigEndian_of_lt ck.toNat_lt, UInt64.ofNat_toNat, if_pos differs]

/-- **Damage is found.** When one byte of a frame is another one, outside of the reserved bytes, the
frame is refused. The reserved bytes can be anything. -/
theorem decode_changed (frame : WalFrame) :
    (∀ position byte, position < 28 ∨ 32 ≤ position ∧ position < frameSize →
      frame.encode[position]? ≠ some byte →
      ∃ e, decode (frame.encode.set position byte) = .err e) ∧
    ∀ reserved : Bytes, reserved.length = 4 →
      decode (frame.encode.take 28 ++ reserved ++ frame.encode.drop 32) = .ok frame := by
  have size := length_headerPrefix frame
  have width := length_bigEndian 8 (checksum frame.headerPrefix frame.data.val).toNat
  refine ⟨fun position byte place other => ?_, fun reserved four => ?_⟩
  · rw [encode_parts] at other
    by_cases inFront : position < 20
    · rw [List.getElem?_append_left (by omega)] at other
      exact ⟨_, decode_changed_front frame inFront other⟩
    · obtain ⟨behind, rfl⟩ : ∃ behind, position = 20 + behind := ⟨position - 20, by omega⟩
      rw [List.getElem?_append_right (by omega), size, Nat.add_sub_cancel_left] at other
      by_cases inChecksum : behind < 8
      · rw [List.getElem?_append_left (by omega)] at other
        exact ⟨_, decode_changed_stored frame inChecksum other⟩
      · obtain ⟨inPage, rfl⟩ : ∃ inPage, behind = 12 + inPage := ⟨behind - 12, by omega⟩
        rw [List.getElem?_append_right (by omega), List.getElem?_append_right (by simp; omega), width,
          List.length_replicate, Nat.sub_sub, Nat.add_sub_cancel_left] at other
        have within : inPage < pageSize := by
          simp only [frameSize, frameHeaderSize] at place
          omega
        have changed := decode_changed_page frame within other
        rw [Nat.add_comm 12, ← Nat.add_assoc, Nat.add_right_comm]
        exact ⟨_, changed⟩
  · have front : frame.encode.take 28 = frame.headerPrefix ++
        bigEndian 8 (checksum frame.headerPrefix frame.data.val).toNat := by
      rw [encode_parts, ← List.append_assoc, List.take_left' (by simp [size])]
    have back : frame.encode.drop 32 = frame.data.val := by
      rw [encode_parts, ← List.append_assoc, ← List.append_assoc, List.drop_left' (by simp [size])]
    rw [front, back, List.append_assoc, List.append_assoc]
    exact decode_reserved frame four

/-- A frame of a page of zeros whose version is read as another one. -/
theorem decode_changed_zero :
    (∃ e, decode ((⟨2, 0, 0, 7, PageData.zero⟩ : WalFrame).encode.set 11 1) = .err e) ∧
      decode ((⟨2, 0, 0, 7, PageData.zero⟩ : WalFrame).encode.take 28 ++ [1, 2, 3, 4] ++
        (⟨2, 0, 0, 7, PageData.zero⟩ : WalFrame).encode.drop 32) = .ok ⟨2, 0, 0, 7, PageData.zero⟩ :=
  ⟨(decode_changed ⟨2, 0, 0, 7, PageData.zero⟩).1 11 1 (Or.inl (by decide)) (by decide),
    (decode_changed ⟨2, 0, 0, 7, PageData.zero⟩).2 [1, 2, 3, 4] rfl⟩

end WalFrame

end Squrust.Core
