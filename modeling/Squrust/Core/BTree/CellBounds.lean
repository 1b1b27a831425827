import Squrust.Core.BTree.NodeCodec
import Squrust.Foundation.Answers

/-!
# Pages that are not nodes

A page from a damaged file can hold any bytes. Reading it as a node checks the
numbers of a cell, but no place: the pointer of a cell, the place it points to
and the length of what stands there may all be out of the page, and then the
code panics. It does not exactly when all the cells it looks at are inside
(`Node.parse_settles_iff`). It looks at cells until the numbers of one are
cut off by the end of the page.
-/

set_option autoImplicit false

namespace Squrust.Core

open Squrust.Foundation

/-- A damaged file. -/
def StorageError.IsCorrupt : StorageError → Prop
  | .corrupt _ => True
  | _ => False

namespace Node

variable {buf : PageData}

/-! ## Where cells are -/

/-- The place a cell pointer names. -/
def pointerAt (buf : PageData) (ptr : Nat) : Nat := field buf.val ptr 2

/-- What a leaf cell holds of a record: the bytes that are inline, and the first overflow page of a
long record. -/
def storedLen (p : Nat) : Nat := if p ≤ usable - 35 then p else inlineLenFor p + 4

/-- The length of a leaf cell's record and the place behind the cell's numbers, if both numbers end
before the page does. -/
def leafCellFront (buf : PageData) (pos : Nat) : Option (Nat × Nat) := do
  let (payloadLen, n) ← Varint.read (buf.val.drop pos)
  let (_, m) ← Varint.read (buf.val.drop (pos + n))
  return (payloadLen.toNat, pos + n + m)

/-- A leaf cell starts in the page, and if its numbers end there, all of it does. -/
def LeafCellInside (buf : PageData) (pos : Nat) : Prop :=
  pos ≤ pageSize ∧ ∀ front ∈ leafCellFront buf pos, front.2 + storedLen front.1 ≤ pageSize

/-- The child page of an interior cell is in the page. -/
def InteriorCellInside (_ : PageData) (pos : Nat) : Prop := pos + 4 ≤ pageSize

/-- The numbers of a leaf cell end in the page. -/
def LeafCellReadable (buf : PageData) (pos : Nat) : Prop := (leafCellFront buf pos).isSome = true

/-- The key of an interior cell ends in the page. -/
def InteriorCellReadable (buf : PageData) (pos : Nat) : Prop :=
  (Varint.read (buf.val.drop (pos + 4))).isSome = true

/-- The pointers and cells up to the first one that is not readable are inside. -/
def CellsInside (Inside Readable : PageData → Nat → Prop) (buf : PageData) (numCells ptr : Nat) : Prop :=
  ∀ i < numCells, (∀ j < i, Readable buf (pointerAt buf (ptr + 2 * j))) →
    ptr + 2 * i + 2 ≤ pageSize ∧ Inside buf (pointerAt buf (ptr + 2 * i))

/-- What a page that is read as a node must not have out of it. -/
def Inside (page : RawPage) : Prop :=
  let off := headerOffset page.id
  let numCells := field page.data.val (off + 3) 2
  (page.data.val[off]? = some tableLeaf →
    CellsInside LeafCellInside LeafCellReadable page.data numCells (off + 8)) ∧
  (page.data.val[off]? = some tableInterior →
    CellsInside InteriorCellInside InteriorCellReadable page.data numCells (off + 12))

/-! ## Numbers -/

theorem slice_settles_iff {offset count : Nat} :
    (buf.slice offset count).Settles StorageError.IsCorrupt ↔ offset + count ≤ pageSize := by
  rw [PageData.slice, Outcome.settles_orPanic_iff, pread, buf.property]
  split
  · next within => exact iff_of_true rfl within
  · next past => exact iff_of_false Bool.false_ne_true past

theorem slice_of_le {offset count : Nat} (within : offset + count ≤ pageSize) :
    buf.slice offset count = .ok ((buf.val.drop offset).take count) := by
  rw [PageData.slice, pread, buf.property, if_pos within]
  rfl

theorem readU16_of_le {offset : Nat} (within : offset + 2 ≤ pageSize) :
    readU16 buf offset = .ok (pointerAt buf offset) := by
  rw [readU16, slice_of_le within]
  rfl

theorem readU16_settles_iff {offset : Nat} :
    (readU16 buf offset).Settles StorageError.IsCorrupt ↔ offset + 2 ≤ pageSize := by
  rw [readU16, Outcome.settles_bind_iff, slice_settles_iff]
  exact and_iff_left fun _ _ => Outcome.settles_ok _

theorem readU32_settles_iff {offset : Nat} :
    (readU32 buf offset).Settles StorageError.IsCorrupt ↔ offset + 4 ≤ pageSize := by
  rw [readU32, Outcome.settles_bind_iff, slice_settles_iff]
  exact and_iff_left fun _ _ => Outcome.settles_ok _

theorem readVarint_of_le {pos : Nat} {what : String} (within : pos ≤ pageSize) :
    readVarint buf pos what = .orErr (.corrupt what) (Varint.read (buf.val.drop pos)) := by
  rw [readVarint, PageData.sliceFrom, buf.property, if_pos within]
  rfl

theorem readVarint_settles_iff {pos : Nat} {what : String} :
    (readVarint buf pos what).Settles StorageError.IsCorrupt ↔ pos ≤ pageSize := by
  by_cases within : pos ≤ pageSize
  · rw [readVarint_of_le within]
    exact iff_of_true (Outcome.settles_orErr trivial) within
  · rw [readVarint, PageData.sliceFrom, buf.property, if_neg within]
    exact iff_of_false Outcome.not_settles_panic within

theorem readVarint_eq_ok {pos n : Nat} {what : String} {value : UInt64} (within : pos ≤ pageSize) :
    readVarint buf pos what = .ok (value, n) ↔ Varint.read (buf.val.drop pos) = some (value, n) := by
  rw [readVarint_of_le within, Outcome.orErr_eq_ok]

/-- A number ends where the page does, or before. -/
theorem varint_within {pos n : Nat} {value : UInt64} (within : pos ≤ pageSize)
    (read : Varint.read (buf.val.drop pos) = some (value, n)) : pos + n ≤ pageSize := by
  have bounds := (Varint.read_bounds read).2
  rw [List.length_drop, buf.property] at bounds
  omega

theorem leafCellFront_eq_some {pos p after : Nat} :
    leafCellFront buf pos = some (p, after) ↔
      ∃ payloadLen n rowidRaw m, Varint.read (buf.val.drop pos) = some (payloadLen, n) ∧
        Varint.read (buf.val.drop (pos + n)) = some (rowidRaw, m) ∧
        payloadLen.toNat = p ∧ pos + n + m = after := by
  simp only [leafCellFront, Option.bind_eq_bind, Option.bind_eq_some_iff, Option.pure_def,
    Option.some.injEq, Prod.mk.injEq, Prod.exists]
  grind

/-! ## Cells -/

/-- What `parseLeafCell` does with the numbers of the cell. -/
def leafCellBody (buf : PageData) (rowid : Int64) (payloadLen : UInt64) (pos : Nat) :
    Outcome StorageError LeafCell :=
  if payloadLen.toNat ≤ usable - 35 then do
    let inlined ← buf.slice pos payloadLen.toNat
    return ⟨rowid, payloadLen, 0, inlined⟩
  else do
    let inlined ← buf.slice pos (inlineLenFor payloadLen.toNat)
    let overflow ← readU32 buf (pos + inlineLenFor payloadLen.toNat)
    return ⟨rowid, payloadLen, overflow, inlined⟩

theorem leafCellBody_settles_iff {rowid : Int64} {payloadLen : UInt64} {pos : Nat} :
    (leafCellBody buf rowid payloadLen pos).Settles StorageError.IsCorrupt ↔
      pos + storedLen payloadLen.toNat ≤ pageSize := by
  unfold leafCellBody storedLen
  split
  · rw [Outcome.settles_bind_iff, slice_settles_iff]
    exact and_iff_left fun _ _ => Outcome.settles_ok _
  · rw [Outcome.settles_bind_iff, slice_settles_iff]
    simp only [Outcome.settles_bind_iff, readU32_settles_iff]
    constructor
    · rintro ⟨inlined, overflow⟩
      have page := (overflow _ (slice_of_le inlined)).1
      omega
    · intro whole
      exact ⟨by omega, fun _ _ => ⟨by omega, fun _ _ => Outcome.settles_ok _⟩⟩

theorem leafCellBody_of_le {rowid : Int64} {payloadLen : UInt64} {pos : Nat}
    (within : pos + storedLen payloadLen.toNat ≤ pageSize) :
    ∃ cell, leafCellBody buf rowid payloadLen pos = .ok cell := by
  unfold leafCellBody
  unfold storedLen at within
  split
  · next short =>
    rw [if_pos short] at within
    rw [slice_of_le within]
    exact ⟨_, rfl⟩
  · next long =>
    rw [if_neg long] at within
    rw [slice_of_le (by omega), readU32, slice_of_le (by omega)]
    exact ⟨_, rfl⟩

theorem parseLeafCell_eq (pos : Nat) : parseLeafCell buf pos = (do
    let (payloadLen, n) ← readVarint buf pos "bad payload varint"
    let (rowidRaw, m) ← readVarint buf (pos + n) "bad rowid varint"
    leafCellBody buf (unzigzag rowidRaw) payloadLen (pos + n + m)) := rfl

theorem parseLeafCell_settles_iff {pos : Nat} :
    (parseLeafCell buf pos).Settles StorageError.IsCorrupt ↔ LeafCellInside buf pos := by
  rw [parseLeafCell_eq, Outcome.settles_bind_iff, readVarint_settles_iff, LeafCellInside]
  refine and_congr_right fun starts => ?_
  constructor
  · rintro body ⟨p, after⟩ isFront
    obtain ⟨payloadLen, n, rowidRaw, m, first, second, rfl, rfl⟩ := leafCellFront_eq_some.mp isFront
    have here := body (payloadLen, n) ((readVarint_eq_ok starts).mpr first)
    have between := varint_within starts first
    obtain ⟨-, later⟩ := Outcome.settles_bind_iff.mp here
    exact leafCellBody_settles_iff.mp (later (rowidRaw, m) ((readVarint_eq_ok between).mpr second))
  · rintro whole ⟨payloadLen, n⟩ first
    have first := (readVarint_eq_ok starts).mp first
    have between := varint_within starts first
    refine Outcome.settles_bind_iff.mpr ⟨readVarint_settles_iff.mpr between, ?_⟩
    rintro ⟨rowidRaw, m⟩ second
    have second := (readVarint_eq_ok between).mp second
    exact leafCellBody_settles_iff.mpr (whole (payloadLen.toNat, pos + n + m)
      (leafCellFront_eq_some.mpr ⟨_, _, _, _, first, second, rfl, rfl⟩))

/-- A leaf cell that is inside is read when its numbers are. -/
theorem exists_parseLeafCell_iff {pos : Nat} (inside : LeafCellInside buf pos) :
    (∃ cell, parseLeafCell buf pos = .ok cell) ↔ LeafCellReadable buf pos := by
  obtain ⟨starts, whole⟩ := inside
  rw [parseLeafCell_eq]
  constructor
  · rintro ⟨cell, returned⟩
    obtain ⟨⟨payloadLen, n⟩, first, returned⟩ := Outcome.bind_eq_ok.mp returned
    have first := (readVarint_eq_ok starts).mp first
    obtain ⟨⟨rowidRaw, m⟩, second, -⟩ := Outcome.bind_eq_ok.mp returned
    have second := (readVarint_eq_ok (varint_within starts first)).mp second
    exact Option.isSome_iff_exists.mpr
      ⟨_, leafCellFront_eq_some.mpr ⟨_, _, _, _, first, second, rfl, rfl⟩⟩
  · intro readable
    obtain ⟨⟨p, after⟩, isFront⟩ := Option.isSome_iff_exists.mp readable
    have within := whole _ isFront
    obtain ⟨payloadLen, n, rowidRaw, m, first, second, rfl, rfl⟩ := leafCellFront_eq_some.mp isFront
    obtain ⟨cell, body⟩ := @leafCellBody_of_le _ (unzigzag rowidRaw) _ _ within
    refine ⟨cell, ?_⟩
    rw [(readVarint_eq_ok starts).mpr first, Outcome.ok_bind]
    dsimp only
    rw [(readVarint_eq_ok (varint_within starts first)).mpr second, Outcome.ok_bind]
    exact body

/-- The cell that one round of the interior loop reads. -/
def parseInteriorCell (buf : PageData) (pos : Nat) : Outcome StorageError (PageId × Int64) := do
  let child ← readU32 buf pos
  let (key, _) ← readVarint buf (pos + 4) "bad interior rowid varint"
  return (child, unzigzag key)

theorem parseInteriorCell_settles_iff {pos : Nat} :
    (parseInteriorCell buf pos).Settles StorageError.IsCorrupt ↔ InteriorCellInside buf pos := by
  rw [parseInteriorCell, Outcome.settles_bind_iff, readU32_settles_iff]
  refine and_iff_left_of_imp fun inside child _ => ?_
  rw [Outcome.settles_bind_iff, readVarint_settles_iff]
  exact ⟨inside, fun _ _ => Outcome.settles_ok _⟩

theorem exists_parseInteriorCell_iff {pos : Nat} (inside : InteriorCellInside buf pos) :
    (∃ cell, parseInteriorCell buf pos = .ok cell) ↔ InteriorCellReadable buf pos := by
  rw [parseInteriorCell, readU32, slice_of_le inside, readVarint_of_le inside, InteriorCellReadable]
  cases Varint.read (buf.val.drop (pos + 4)) with
  | none =>
      refine iff_of_false ?_ Bool.false_ne_true
      rintro ⟨cell, returned⟩
      cases returned
  | some read => exact iff_of_true ⟨_, rfl⟩ rfl

/-! ## The loops -/

/-- A loop over cell pointers answers when the cells it looks at are inside. -/
theorem cells_settle_iff {α : Type} {Inside Readable : PageData → Nat → Prop}
    {parseCell : Nat → Outcome StorageError α} {parseCells : Nat → Nat → Outcome StorageError (List α)}
    (stop : ∀ ptr, parseCells 0 ptr = .ok [])
    (round : ∀ numCells ptr, parseCells (numCells + 1) ptr = (do
      let cellOff ← readU16 buf ptr
      let cell ← parseCell cellOff
      let cells ← parseCells numCells (ptr + 2)
      return cell :: cells))
    (settles : ∀ pos, (parseCell pos).Settles StorageError.IsCorrupt ↔ Inside buf pos)
    (reads : ∀ pos, Inside buf pos → ((∃ cell, parseCell pos = .ok cell) ↔ Readable buf pos))
    (numCells ptr : Nat) :
    (parseCells numCells ptr).Settles StorageError.IsCorrupt ↔
      CellsInside Inside Readable buf numCells ptr := by
  induction numCells generalizing ptr with
  | zero =>
      rw [stop]
      exact iff_of_true (Outcome.settles_ok _) fun i small => absurd small (Nat.not_lt_zero i)
  | succ numCells ih =>
      rw [round, Outcome.settles_bind_iff, readU16_settles_iff]
      constructor
      · rintro ⟨within, later⟩ i small before
        obtain ⟨here, later⟩ := Outcome.settles_bind_iff.mp (later _ (readU16_of_le within))
        have inside := (settles _).mp here
        cases i with
        | zero => exact ⟨within, inside⟩
        | succ i =>
            obtain ⟨cell, returned⟩ := (reads _ inside).mpr (before 0 (Nat.succ_pos i))
            have rest := (ih (ptr + 2)).mp (Outcome.settles_bind_iff.mp (later cell returned)).1
            have next := rest i (by omega) fun j less => by
              have readable := before (j + 1) (by omega)
              rwa [show ptr + 2 * (j + 1) = ptr + 2 + 2 * j by omega] at readable
            rwa [show ptr + 2 * (i + 1) = ptr + 2 + 2 * i by omega]
      · intro all
        obtain ⟨within, inside⟩ := all 0 (Nat.succ_pos _) fun j less => absurd less (Nat.not_lt_zero j)
        refine ⟨within, fun cellOff read => ?_⟩
        obtain rfl := Except.ok.inj ((readU16_of_le within).symm.trans read)
        refine Outcome.settles_bind_iff.mpr ⟨(settles _).mpr inside, fun cell returned => ?_⟩
        have readable := (reads _ inside).mp ⟨cell, returned⟩
        refine Outcome.settles_bind_iff.mpr ⟨(ih (ptr + 2)).mpr fun i small before => ?_,
          fun _ _ => Outcome.settles_ok _⟩
        have next := all (i + 1) (by omega) fun j less => by
          cases j with
          | zero => exact readable
          | succ j =>
              have readable := before j (by omega)
              rwa [show ptr + 2 * (j + 1) = ptr + 2 + 2 * j by omega]
        rwa [show ptr + 2 * (i + 1) = ptr + 2 + 2 * i by omega] at next

theorem parseLeafCells_settles_iff {numCells ptr : Nat} :
    (parseLeafCells buf numCells ptr).Settles StorageError.IsCorrupt ↔
      CellsInside LeafCellInside LeafCellReadable buf numCells ptr :=
  cells_settle_iff (fun _ => rfl) (fun _ _ => rfl) (fun _ => parseLeafCell_settles_iff)
    (fun _ => exists_parseLeafCell_iff) numCells ptr

theorem parseInteriorCells_settles_iff {numCells ptr : Nat} :
    (parseInteriorCells buf numCells ptr).Settles StorageError.IsCorrupt ↔
      CellsInside InteriorCellInside InteriorCellReadable buf numCells ptr := by
  refine cells_settle_iff (fun _ => rfl) (fun numCells ptr => ?_) (fun _ => parseInteriorCell_settles_iff)
    (fun _ => exists_parseInteriorCell_iff) numCells ptr
  simp only [parseInteriorCells, parseInteriorCell, bind_assoc, pure_bind]

/-! ## Pages -/

/-- **Damaged pages.** A page is read as a node, or is found to be corrupt, exactly when the cells
that the code looks at are inside of it. -/
theorem parse_settles_iff (page : RawPage) :
    (Node.parse page).Settles StorageError.IsCorrupt ↔ Inside page := by
  obtain ⟨id, data⟩ := page
  have early : headerOffset id ≤ 100 := by
    rw [headerOffset]
    split <;> decide
  have type : ∃ byte, data.val[headerOffset id]? = some byte ∧
      data.slice (headerOffset id) 1 = .ok [byte] := by
    have within : headerOffset id < data.val.length := by
      rw [data.property]
      exact early.trans_lt (by decide)
    refine ⟨data.val[headerOffset id], List.getElem?_eq_getElem within, ?_⟩
    rw [slice_of_le (by rw [data.property] at within; exact within), List.drop_eq_getElem_cons within]
    rfl
  obtain ⟨byte, stands, read⟩ := type
  have count : readU16 data (headerOffset id + 3) = .ok (field data.val (headerOffset id + 3) 2) :=
    readU16_of_le (by simp only [pageSize]; omega)
  simp only [Node.parse, read, count, Outcome.ok_bind, Inside, stands, Option.some.injEq,
    List.cons.injEq, and_true]
  by_cases isLeaf : byte = tableLeaf
  · have notInterior : byte ≠ tableInterior := by
      rw [isLeaf]
      decide
    rw [if_pos isLeaf, Outcome.settles_bind_iff, parseLeafCells_settles_iff]
    constructor
    · rintro ⟨inside, -⟩
      exact ⟨fun _ => inside, fun isInterior => absurd isInterior notInterior⟩
    · rintro ⟨inside, -⟩
      exact ⟨inside isLeaf, fun _ _ => Outcome.settles_ok _⟩
  · rw [if_neg isLeaf]
    by_cases isInterior : byte = tableInterior
    · rw [if_pos isInterior, Outcome.settles_bind_iff, readU32_settles_iff]
      simp only [Outcome.settles_bind_iff, parseInteriorCells_settles_iff]
      have within : headerOffset id + 8 + 4 ≤ pageSize := by
        simp only [pageSize]
        omega
      constructor
      · rintro ⟨-, later⟩
        obtain ⟨rightChild, right⟩ : ∃ rightChild, readU32 data (headerOffset id + 8) = .ok rightChild := by
          rw [readU32, slice_of_le within]
          exact ⟨_, rfl⟩
        exact ⟨fun same => absurd same isLeaf, fun _ => (later rightChild right).1⟩
      · rintro ⟨-, inside⟩
        exact ⟨within, fun _ _ => ⟨inside isInterior, fun _ _ => Outcome.settles_ok _⟩⟩
    · rw [if_neg isInterior]
      exact iff_of_true (Outcome.settles_err_iff.mpr trivial)
        ⟨fun same => absurd same isLeaf, fun same => absurd same isInterior⟩

/-- A leaf with one cell whose pointer leaves the page. -/
def strayPointer : RawPage :=
  ⟨2, ⟨[0x0d, 0, 0, 0, 1, 0, 0, 0, 0xff, 0xff] ++ List.replicate (pageSize - 10) 0, by
    rw [List.length_append, List.length_replicate]
    rfl⟩⟩

theorem parse_strayPointer : ¬ (Node.parse strayPointer).Settles StorageError.IsCorrupt := by
  have panics : Node.parse strayPointer = .panic "range start index out of range for slice" := by
    decide +kernel
  rw [panics]
  exact Outcome.not_settles_panic

end Node

end Squrust.Core
