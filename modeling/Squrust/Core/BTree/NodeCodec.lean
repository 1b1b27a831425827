import Squrust.Core.BTree.Node

/-!
# A written page reads back

A node that fits its page, and whose leaf cells have the shape the tree gives
them, is written without a panic, and parsing the page gives the node back
(`Node.parse_serializeInto`).

The page written is described as a whole: the kept file header of page 1, the
b-tree header, the pointers, a gap of zeros, and the cells (`serializeCells`).
Each copy of the writer falls into a run of zeros (`copyFrom_zeros`), and the
fit is what keeps the pointers and the cells apart.
-/

set_option autoImplicit false

namespace Squrust.Core

open Squrust.Foundation

/-! ## Shapes -/

/-- The longest record that stays on its leaf. -/
abbrev maxInline : Nat := usable - 35

/-- The shape the tree gives a leaf cell: a short record is fully inline, a
long one has its first part inline and an overflow page. -/
def LeafCell.Shaped (cell : LeafCell) : Prop :=
  cell.inlined.length = inlineLenFor cell.payloadLen.toNat ∧
    (cell.overflow = 0 ↔ cell.payloadLen.toNat ≤ maxInline)

/-- Every leaf cell has the shape the tree gives it. -/
def Node.Shaped : Node → Prop
  | .leaf l => ∀ cell ∈ l.cells, cell.Shaped
  | .interior _ => True

theorem inlineLenFor_of_le {p : Nat} (short : p ≤ maxInline) : inlineLenFor p = p := by
  simp only [inlineLenFor]
  rw [if_pos short]

/-- The inline part is never longer than the longest inline record, and for a
long record it is a proper part. -/
theorem inlineLenFor_le (p : Nat) : inlineLenFor p ≤ maxInline := by
  simp only [inlineLenFor, usable, pageSize, maxInline]
  split
  · assumption
  · split <;> omega

theorem inlineLenFor_lt {p : Nat} (long : maxInline < p) : inlineLenFor p < p :=
  (inlineLenFor_le p).trans_lt long

/-! ## The bytes of the cells -/

/-- The bytes of an interior cell. -/
def interiorCellBytes (cell : PageId × Int64) : Bytes :=
  bigEndian 4 cell.1.toNat ++ Varint.encoded (zigzag cell.2)

theorem LeafCell.encode_eq (cell : LeafCell) :
    cell.encode = Varint.encoded cell.payloadLen ++ (Varint.encoded (zigzag cell.rowid) ++
      (cell.inlined ++ if cell.overflow ≠ 0 then bigEndian 4 cell.overflow.toNat else [])) := by
  unfold LeafCell.encode
  simp only [Varint.write_eq, List.nil_append]
  split <;> simp

@[simp] theorem LeafCell.length_encode (cell : LeafCell) : cell.encode.length = cell.encodedLen := by
  rw [LeafCell.encode_eq, LeafCell.encodedLen]
  split <;> simp [Nat.add_assoc]

@[simp] theorem length_interiorCellBytes (cell : PageId × Int64) :
    (interiorCellBytes cell).length = InteriorNode.cellLen cell.2 := by
  simp [interiorCellBytes, InteriorNode.cellLen]

/-- The pointer array of cells that are packed from `cellPos` on. -/
def pointers : Nat → List Bytes → Bytes
  | _, [] => []
  | cellPos, cell :: cells => bigEndian 2 cellPos ++ pointers (cellPos + cell.length) cells

@[simp] theorem length_pointers (cellPos : Nat) (cells : List Bytes) :
    (pointers cellPos cells).length = 2 * cells.length := by
  induction cells generalizing cellPos with
  | nil => rfl
  | cons cell cells ih =>
      simp only [pointers, List.length_append, length_bigEndian, ih, List.length_cons]
      omega

namespace Node

/-! ## Writing into zeros -/

/-- A copy that falls into a run of zeros. -/
theorem copyFrom_zeros {buf : PageData} {before after : Bytes} {zeros offset : Nat} (bytes : Bytes)
    (shape : buf.val = before ++ List.replicate zeros 0 ++ after) (start : before.length = offset)
    (room : bytes.length ≤ zeros) :
    ∃ written, buf.copyFrom offset bytes = .ok written ∧
      written.val = before ++ bytes ++ List.replicate (zeros - bytes.length) 0 ++ after := by
  have cut : buf.val = before ++ List.replicate bytes.length 0 ++
      (List.replicate (zeros - bytes.length) 0 ++ after) := by
    rw [shape]
    simp only [List.append_assoc]
    rw [← List.append_assoc (List.replicate bytes.length 0), List.replicate_append_replicate,
      Nat.add_sub_cancel' room]
  have spliced : splice buf.val offset bytes =
      some (before ++ bytes ++ (List.replicate (zeros - bytes.length) 0 ++ after)) := by
    rw [cut]
    exact splice_append start (by simp)
  refine ⟨⟨_, (length_of_splice spliced).trans buf.property⟩, ?_, ?_⟩
  · rw [PageData.copyFrom_eq_ok]
    exact spliced
  · simp

/-- The layout of a page while it is written: what stands in front of the
header fields and pointers to come, zeros, the cells written so far, and zeros
for the cells to come. -/
def Layout (buf : PageData) (front body : Bytes) (gap rest : Nat) : Prop :=
  buf.val = front ++ List.replicate gap 0 ++ (body ++ List.replicate rest 0)

/-- Writing the next field of the front. -/
theorem layFront {buf : PageData} {front body : Bytes} {gap rest offset : Nat}
    (layout : Layout buf front body gap rest) (bytes : Bytes) (start : front.length = offset)
    (room : bytes.length ≤ gap) :
    ∃ written, buf.copyFrom offset bytes = .ok written ∧
      Layout written (front ++ bytes) body (gap - bytes.length) rest :=
  copyFrom_zeros bytes layout start room

/-- Writing the next bytes of the cells. -/
theorem layBody {buf : PageData} {front body : Bytes} {gap rest offset : Nat}
    (layout : Layout buf front body gap rest) (bytes : Bytes)
    (start : front.length + gap + body.length = offset) (room : bytes.length ≤ rest) :
    ∃ written, buf.copyFrom offset bytes = .ok written ∧
      Layout written front (body ++ bytes) gap (rest - bytes.length) := by
  have shape : buf.val =
      (front ++ List.replicate gap 0 ++ body) ++ List.replicate rest 0 ++ [] := by
    rw [layout]
    simp
  obtain ⟨written, wrote, final⟩ := copyFrom_zeros bytes shape
    (by simpa only [List.length_append, List.length_replicate] using start) room
  refine ⟨written, wrote, ?_⟩
  rw [Layout, final]
  simp

/-- All rounds of the leaf loop. -/
theorem serializeLeafCells_layout (cells : List LeafCell) {buf : PageData} {front body : Bytes}
    {gap rest ptr cellPos : Nat} (layout : Layout buf front body gap rest)
    (atPtr : front.length = ptr) (atCell : ptr + gap + body.length = cellPos)
    (roomPtrs : 2 * cells.length ≤ gap) (roomCells : (cells.map LeafCell.encodedLen).sum ≤ rest) :
    ∃ written, serializeLeafCells cells ptr cellPos buf = .ok written ∧
      Layout written (front ++ pointers cellPos (cells.map LeafCell.encode))
        (body ++ (cells.map LeafCell.encode).flatten) (gap - 2 * cells.length)
        (rest - (cells.map LeafCell.encodedLen).sum) := by
  induction cells generalizing buf front body gap rest ptr cellPos with
  | nil => exact ⟨buf, rfl, by simpa [pointers] using layout⟩
  | cons cell cells ih =>
      simp only [List.length_cons] at roomPtrs
      simp only [List.map_cons, List.sum_cons] at roomCells
      obtain ⟨pointed, wrotePtr, layout⟩ := layFront layout (bigEndian 2 cellPos) atPtr
        (by simp only [length_bigEndian]; omega)
      rw [length_bigEndian] at layout
      obtain ⟨written, wroteCell, layout⟩ := layBody layout cell.encode
        (show (front ++ bigEndian 2 cellPos).length + (gap - 2) + body.length = cellPos by
          simp only [List.length_append, length_bigEndian]; omega)
        (by simp only [LeafCell.length_encode]; omega)
      rw [LeafCell.length_encode] at layout
      obtain ⟨final, run, shape⟩ := ih layout
        (show (front ++ bigEndian 2 cellPos).length = ptr + 2 by
          simp only [List.length_append, length_bigEndian]; omega)
        (show ptr + 2 + (gap - 2) + (body ++ cell.encode).length = cellPos + cell.encode.length by
          simp only [List.length_append]; omega)
        (by omega) (by omega)
      refine ⟨final, ?_, ?_⟩
      · rw [serializeLeafCells, writeU16, wrotePtr]
        simp only [Outcome.ok_bind]
        rw [wroteCell]
        exact run
      · have gapLeft : gap - 2 * (cells.length + 1) = gap - 2 - 2 * cells.length := by omega
        simp only [List.map_cons, pointers, List.flatten_cons, List.sum_cons, List.length_cons,
          gapLeft]
        simpa only [List.append_assoc, Nat.sub_sub, LeafCell.length_encode] using shape

/-- All rounds of the interior loop. -/
theorem serializeInteriorCells_layout (cells : List (PageId × Int64)) {buf : PageData}
    {front body : Bytes} {gap rest ptr cellPos : Nat} (layout : Layout buf front body gap rest)
    (atPtr : front.length = ptr) (atCell : ptr + gap + body.length = cellPos)
    (roomPtrs : 2 * cells.length ≤ gap)
    (roomCells : (cells.map fun cell => InteriorNode.cellLen cell.2).sum ≤ rest) :
    ∃ written, serializeInteriorCells cells ptr cellPos buf = .ok written ∧
      Layout written (front ++ pointers cellPos (cells.map interiorCellBytes))
        (body ++ (cells.map interiorCellBytes).flatten) (gap - 2 * cells.length)
        (rest - (cells.map fun cell => InteriorNode.cellLen cell.2).sum) := by
  induction cells generalizing buf front body gap rest ptr cellPos with
  | nil => exact ⟨buf, rfl, by simpa [pointers] using layout⟩
  | cons cell cells ih =>
      obtain ⟨child, key⟩ := cell
      simp only [List.length_cons] at roomPtrs
      simp only [List.map_cons, List.sum_cons, InteriorNode.cellLen] at roomCells
      obtain ⟨pointed, wrotePtr, layout⟩ := layFront layout (bigEndian 2 cellPos) atPtr
        (by simp only [length_bigEndian]; omega)
      rw [length_bigEndian] at layout
      obtain ⟨childed, wroteChild, layout⟩ := layBody layout (bigEndian 4 child.toNat)
        (show (front ++ bigEndian 2 cellPos).length + (gap - 2) + body.length = cellPos by
          simp only [List.length_append, length_bigEndian]; omega)
        (by simp only [length_bigEndian]; omega)
      rw [length_bigEndian] at layout
      obtain ⟨written, wroteKey, layout⟩ := layBody layout (Varint.encoded (zigzag key))
        (show (front ++ bigEndian 2 cellPos).length + (gap - 2) +
            (body ++ bigEndian 4 child.toNat).length = cellPos + 4 by
          simp only [List.length_append, length_bigEndian]; omega)
        (by simp only [Varint.length_encoded]; omega)
      rw [Varint.length_encoded, List.append_assoc] at layout
      obtain ⟨final, run, shape⟩ := ih layout
        (show (front ++ bigEndian 2 cellPos).length = ptr + 2 by
          simp only [List.length_append, length_bigEndian]; omega)
        (show ptr + 2 + (gap - 2) +
            (body ++ (bigEndian 4 child.toNat ++ Varint.encoded (zigzag key))).length =
            cellPos + 4 + Varint.len (zigzag key) by
          simp only [List.length_append, length_bigEndian, Varint.length_encoded]; omega)
        (by omega) (by simp only [InteriorNode.cellLen]; omega)
      refine ⟨final, ?_, ?_⟩
      · have tmp : (Varint.write [] (zigzag key)).1 = Varint.encoded (zigzag key) := rfl
        rw [serializeInteriorCells, writeU16, wrotePtr]
        simp only [Outcome.ok_bind]
        rw [wroteChild]
        simp only [Outcome.ok_bind, tmp]
        rw [wroteKey]
        simp only [Outcome.ok_bind, Varint.length_encoded]
        exact run
      · have gapLeft : gap - 2 * (cells.length + 1) = gap - 2 - 2 * cells.length := by omega
        have restLeft : ∀ keys : Nat, rest - (4 + Varint.len (zigzag key) + keys) =
            rest - 4 - Varint.len (zigzag key) - keys := by omega
        have cellStart : cellPos + InteriorNode.cellLen key =
            cellPos + 4 + Varint.len (zigzag key) := by simp only [InteriorNode.cellLen]; omega
        simp only [List.map_cons, pointers, List.flatten_cons, List.sum_cons, List.length_cons,
          gapLeft, length_interiorCellBytes, cellStart]
        simp only [InteriorNode.cellLen, restLeft, interiorCellBytes]
        simpa only [List.append_assoc, interiorCellBytes, InteriorNode.cellLen] using shape

/-! ## The header -/

/-- The b-tree header of a page, without the right child. -/
def headerBytes (ty : UInt8) (numCells start : Nat) : Bytes :=
  [ty] ++ bigEndian 2 0 ++ bigEndian 2 numCells ++ bigEndian 2 start ++ [0]

@[simp] theorem length_headerBytes (ty : UInt8) (numCells start : Nat) :
    (headerBytes ty numCells start).length = 8 := by
  simp [headerBytes]

/-- The five fields of the header, one after the other. -/
theorem header_layout {buf : PageData} {front body : Bytes} {gap rest off : Nat}
    (layout : Layout buf front body gap rest) (start : front.length = off) (room : 8 ≤ gap)
    (ty : UInt8) (numCells contentStart : Nat) :
    ∃ typed freeblock counted started written,
      buf.copyFrom off [ty] = .ok typed ∧
      writeU16 typed (off + 1) 0 = .ok freeblock ∧
      writeU16 freeblock (off + 3) numCells = .ok counted ∧
      writeU16 counted (off + 5) contentStart = .ok started ∧
      started.copyFrom (off + 7) [0] = .ok written ∧
      Layout written (front ++ headerBytes ty numCells contentStart) body (gap - 8) rest := by
  obtain ⟨typed, wroteType, layout⟩ := layFront layout [ty] start (by simp; omega)
  obtain ⟨freeblock, wroteFree, layout⟩ := layFront layout (bigEndian 2 0)
    (show List.length _ = off + 1 by simp [start]) (by simp; omega)
  obtain ⟨counted, wroteCount, layout⟩ := layFront layout (bigEndian 2 numCells)
    (show List.length _ = off + 3 by simp [start]) (by simp; omega)
  obtain ⟨started, wroteStart, layout⟩ := layFront layout
    (bigEndian 2 contentStart) (show List.length _ = off + 5 by simp [start]) (by simp; omega)
  obtain ⟨written, wroteFragments, layout⟩ := layFront layout [0]
    (show List.length _ = off + 7 by simp [start]) (by simp; omega)
  refine ⟨typed, freeblock, counted, started, written, wroteType, wroteFree, wroteCount, wroteStart,
    wroteFragments, ?_⟩
  have left : gap - 1 - 2 - 2 - 2 - 1 = gap - 8 := by omega
  simpa only [headerBytes, List.append_assoc, List.length_singleton, length_bigEndian, left]
    using layout

/-! ## The whole page -/

/-- The cells of a node as bytes, in key order. -/
def cellBytes : Node → List Bytes
  | .leaf l => l.cells.map LeafCell.encode
  | .interior n => n.cells.map interiorCellBytes

/-- Where the cells of a node start on its page. -/
def cellStart (node : Node) : Nat := pageSize - node.cellBytes.flatten.length

/-- What stands before the pointers: the header, and the right child of an
interior node. -/
def heading : Node → Bytes
  | .leaf l => headerBytes tableLeaf l.cells.length (cellStart (.leaf l))
  | .interior n => headerBytes tableInterior n.cells.length (cellStart (.interior n)) ++
      bigEndian 4 n.rightChild.toNat

theorem length_flatten_encode (cells : List LeafCell) :
    (cells.map LeafCell.encode).flatten.length = (cells.map LeafCell.encodedLen).sum := by
  induction cells with
  | nil => rfl
  | cons cell cells ih => simp [ih]

theorem length_flatten_interior (cells : List (PageId × Int64)) :
    (cells.map interiorCellBytes).flatten.length =
      (cells.map fun cell => InteriorNode.cellLen cell.2).sum := by
  induction cells with
  | nil => rfl
  | cons cell cells ih => simp [ih]

/-- The parts of a page: header and pointers do not reach the cells. -/
theorem room_of_fits {node : Node} {pageId : PageId} (fits : node.fits pageId = true) :
    headerOffset pageId + node.heading.length + 2 * node.cellBytes.length +
      node.cellBytes.flatten.length ≤ pageSize := by
  cases node with
  | leaf l =>
      have within := LeafNode.fits_iff.mp fits
      rw [LeafNode.used] at within
      simp only [heading, cellBytes, length_flatten_encode, length_headerBytes, List.length_map]
      omega
  | interior n =>
      have within := InteriorNode.fits_iff.mp fits
      rw [InteriorNode.used] at within
      simp only [heading, cellBytes, length_flatten_interior, length_headerBytes, List.length_map,
        List.length_append, length_bigEndian]
      omega

/-- The page of a node: the kept file header, the heading, the pointers, zeros
and the cells. -/
def IsImage (node : Node) (kept : Bytes) (data : PageData) : Prop :=
  ∃ gap, data.val = kept ++ node.heading ++ pointers node.cellStart node.cellBytes ++
    List.replicate gap 0 ++ node.cellBytes.flatten

/-- A cleared page is ready to be written. -/
theorem cleared_layout {off start : Nat} (data : PageData) (order : off ≤ start)
    (within : start ≤ pageSize) :
    Layout (cleared off data) (data.val.take off) [] (start - off) (pageSize - start) := by
  have zeros : pageSize - off = start - off + (pageSize - start) := by omega
  simp only [Layout, cleared, zeros, List.nil_append, List.append_assoc,
    List.replicate_append_replicate]

theorem contentStart_eq {total : Nat} (within : total ≤ pageSize) :
    contentStart total = .ok (pageSize - total) := by
  rw [contentStart, if_pos within]

/-- **Writing.** A node that fits is written without a panic, and the page is
its image behind the kept file header. -/
theorem serializeInto_of_fits {node : Node} {page : RawPage} (fits : node.fits page.id = true) :
    ∃ written, node.serializeInto page = .ok ⟨page.id, written⟩ ∧
      node.IsImage (page.data.val.take (headerOffset page.id)) written := by
  have room := room_of_fits fits
  have offLength : (page.data.val.take (headerOffset page.id)).length = headerOffset page.id := by
    rw [List.length_take, page.data.property]
    omega
  cases node with
  | leaf l =>
      simp only [heading, cellBytes, length_headerBytes, List.length_map, length_flatten_encode]
        at room
      let start := pageSize - (l.cells.map LeafCell.encodedLen).sum
      have started : contentStart (l.cells.map LeafCell.encodedLen).sum = .ok start :=
        contentStart_eq (by omega)
      have layout : Layout (cleared (headerOffset page.id) page.data) _ _ _ _ :=
        cleared_layout page.data (show headerOffset page.id ≤ start by omega) (by omega)
      obtain ⟨typed, freeblock, counted, marked, headed, one, two, three, four, five, layout⟩ :=
        header_layout layout offLength (by omega) tableLeaf l.cells.length start
      obtain ⟨written, run, layout⟩ := serializeLeafCells_layout l.cells layout
        (show List.length _ = headerOffset page.id + 8 by
          simp only [List.length_append, offLength, length_headerBytes])
        (show _ = start by simp only [List.length_nil]; omega) (by omega) (by omega)
      refine ⟨written, ?_, start - headerOffset page.id - 8 - 2 * l.cells.length, ?_⟩
      · simp only [serializeInto, started, Outcome.ok_bind, one, two, three, four, five, run]
        rfl
      · have full : pageSize - start - (l.cells.map LeafCell.encodedLen).sum = 0 := by omega
        have sameStart : cellStart (.leaf l) = start := by
          simp only [cellStart, cellBytes, length_flatten_encode, start]
        rw [Layout, full] at layout
        rw [layout, sameStart]
        simp only [heading, cellBytes, sameStart, List.nil_append, List.replicate_zero,
          List.append_nil, List.append_assoc]
  | interior n =>
      simp only [heading, cellBytes, length_headerBytes, List.length_map, length_flatten_interior,
        List.length_append, length_bigEndian] at room
      let start := pageSize - (n.cells.map fun cell => InteriorNode.cellLen cell.2).sum
      have started : contentStart (n.cells.map fun cell => InteriorNode.cellLen cell.2).sum =
          .ok start := contentStart_eq (by omega)
      have layout : Layout (cleared (headerOffset page.id) page.data) _ _ _ _ :=
        cleared_layout page.data (show headerOffset page.id ≤ start by omega) (by omega)
      obtain ⟨typed, freeblock, counted, marked, headed, one, two, three, four, five, layout⟩ :=
        header_layout layout offLength (by omega) tableInterior n.cells.length start
      obtain ⟨righted, wroteRight, layout⟩ := layFront layout
        (bigEndian 4 n.rightChild.toNat) (show List.length _ = headerOffset page.id + 8 by
          simp only [List.length_append, offLength, length_headerBytes])
        (by simp only [length_bigEndian]; omega)
      rw [length_bigEndian] at layout
      obtain ⟨written, run, layout⟩ := serializeInteriorCells_layout n.cells layout
        (show List.length _ = headerOffset page.id + 12 by
          simp only [List.length_append, offLength, length_headerBytes, length_bigEndian])
        (show _ = start by simp only [List.length_nil]; omega) (by omega) (by omega)
      refine ⟨written, ?_, start - headerOffset page.id - 8 - 4 - 2 * n.cells.length, ?_⟩
      · simp only [serializeInto, started, Outcome.ok_bind, one, two, three, four, five, writeU32,
          wroteRight, run]
        rfl
      · have full : pageSize - start - (n.cells.map fun cell => InteriorNode.cellLen cell.2).sum =
            0 := by omega
        have sameStart : cellStart (.interior n) = start := by
          simp only [cellStart, cellBytes, length_flatten_interior, start]
        rw [Layout, full] at layout
        rw [layout, sameStart]
        simp only [heading, cellBytes, sameStart, List.nil_append, List.replicate_zero,
          List.append_nil, List.append_assoc]

/-! ## Reading -/

/-- What stands at a position of a page. -/
def Reads (data : PageData) (pos : Nat) (bytes : Bytes) : Prop :=
  pos ≤ pageSize ∧ ∃ rest, data.val.drop pos = bytes ++ rest

namespace Reads

variable {data : PageData} {pos : Nat} {bytes more : Bytes}

/-- The first part of what stands there. -/
theorem left (reads : Reads data pos (bytes ++ more)) : Reads data pos bytes := by
  obtain ⟨within, rest, here⟩ := reads
  exact ⟨within, more ++ rest, by rw [here, List.append_assoc]⟩

/-- The part behind the first one. -/
theorem right (reads : Reads data pos (bytes ++ more)) : Reads data (pos + bytes.length) more := by
  obtain ⟨within, rest, here⟩ := reads
  have lengths := congrArg List.length here
  have size := data.property
  simp only [List.length_drop, List.length_append] at lengths
  refine ⟨by omega, rest, ?_⟩
  rw [← List.drop_drop, here, List.append_assoc, List.drop_left]

theorem slice (reads : Reads data pos bytes) : data.slice pos bytes.length = .ok bytes := by
  obtain ⟨within, rest, here⟩ := reads
  exact PageData.slice_eq_ok within here

theorem readU16 {value : Nat} (reads : Reads data pos (bigEndian 2 value)) (small : value < 65536) :
    Node.readU16 data pos = .ok value := by
  have sliced := reads.slice
  rw [length_bigEndian] at sliced
  have back : ofBigEndian (bigEndian 2 value) = value := ofBigEndian_bigEndian_of_lt small
  simp only [Node.readU16, sliced, Outcome.ok_bind, back]
  rfl

theorem readU32 {value : UInt32} (reads : Reads data pos (bigEndian 4 value.toNat)) :
    Node.readU32 data pos = .ok value := by
  have sliced := reads.slice
  rw [length_bigEndian] at sliced
  have back : ofBigEndian (bigEndian 4 value.toNat) = value.toNat :=
    ofBigEndian_bigEndian_of_lt value.toNat_lt
  simp only [Node.readU32, sliced, Outcome.ok_bind, back, UInt32.ofNat_toNat]
  rfl

theorem readVarint {value : UInt64} (reads : Reads data pos (Varint.encoded value))
    (what : String) :
    Node.readVarint data pos what = .ok (value, Varint.len value) := by
  obtain ⟨within, rest, here⟩ := reads
  have sliced : data.sliceFrom pos = .ok (Varint.encoded value ++ rest) :=
    PageData.sliceFrom_eq_ok.mpr ⟨within, here⟩
  simp only [Node.readVarint, sliced, Outcome.ok_bind, Varint.read_encoded]
  rfl

end Reads

/-- A leaf cell of the shape the tree gives it reads back. -/
theorem parseLeafCell_encode {data : PageData} {pos : Nat} {cell : LeafCell}
    (reads : Reads data pos cell.encode) (shaped : cell.Shaped) :
    parseLeafCell data pos = .ok cell := by
  rw [LeafCell.encode_eq] at reads
  obtain ⟨lengths, spills⟩ := shaped
  have payload := reads.left.readVarint "bad payload varint"
  have behind := reads.right
  rw [Varint.length_encoded] at behind
  have rowid := behind.left.readVarint "bad rowid varint"
  have record := behind.right
  rw [Varint.length_encoded] at record
  have inlined := record.left.slice
  by_cases short : cell.payloadLen.toNat ≤ maxInline
  · have none : cell.overflow = 0 := spills.mpr short
    rw [lengths, inlineLenFor_of_le short] at inlined
    simp only [parseLeafCell, payload, Outcome.ok_bind, rowid, unzigzag_zigzag, if_pos short,
      inlined, ← none]
    rfl
  · have some : cell.overflow ≠ 0 := mt spills.mp short
    have pointer := record.right
    rw [if_pos some, lengths] at pointer
    rw [lengths] at inlined
    simp only [parseLeafCell, payload, Outcome.ok_bind, rowid, unzigzag_zigzag, if_neg short,
      inlined, pointer.readU32]
    rfl

theorem parseLeafCells_encode (cells : List LeafCell) {data : PageData} {ptr cellPos : Nat}
    (pointed : Reads data ptr (pointers cellPos (cells.map LeafCell.encode)))
    (reads : Reads data cellPos (cells.map LeafCell.encode).flatten)
    (shaped : ∀ cell ∈ cells, cell.Shaped) :
    parseLeafCells data cells.length ptr = .ok cells := by
  induction cells generalizing ptr cellPos with
  | nil => rfl
  | cons cell cells ih =>
      rw [List.map_cons, pointers] at pointed
      rw [List.map_cons, List.flatten_cons] at reads
      have offset := pointed.left.readU16 (by have := reads.1; simp only [pageSize] at this; omega)
      have parsed := parseLeafCell_encode reads.left (shaped cell List.mem_cons_self)
      have rest := pointed.right
      rw [length_bigEndian] at rest
      have others := ih rest reads.right fun other member =>
        shaped other (List.mem_cons_of_mem _ member)
      simp only [List.length_cons, parseLeafCells, offset, Outcome.ok_bind, parsed, others]
      rfl

theorem parseInteriorCells_encode (cells : List (PageId × Int64)) {data : PageData}
    {ptr cellPos : Nat}
    (pointed : Reads data ptr (pointers cellPos (cells.map interiorCellBytes)))
    (reads : Reads data cellPos (cells.map interiorCellBytes).flatten) :
    parseInteriorCells data cells.length ptr = .ok cells := by
  induction cells generalizing ptr cellPos with
  | nil => rfl
  | cons cell cells ih =>
      obtain ⟨child, key⟩ := cell
      rw [List.map_cons, pointers] at pointed
      rw [List.map_cons, List.flatten_cons] at reads
      have offset := pointed.left.readU16 (by have := reads.1; simp only [pageSize] at this; omega)
      have here := reads.left
      rw [interiorCellBytes] at here
      have childRead := here.left.readU32
      have keyed := here.right
      rw [length_bigEndian] at keyed
      have keyRead := keyed.readVarint "bad interior rowid varint"
      have rest := pointed.right
      rw [length_bigEndian] at rest
      have others := ih rest reads.right
      simp only [List.length_cons, parseInteriorCells, offset, Outcome.ok_bind, childRead, keyRead,
        others, unzigzag_zigzag]
      rfl

/-- The type and the number of cells, from the header. -/
theorem readHeader {data : PageData} {off numCells start : Nat} {ty : UInt8}
    (reads : Reads data off (headerBytes ty numCells start)) (small : numCells < 65536) :
    data.slice off 1 = .ok [ty] ∧ readU16 data (off + 3) = .ok numCells := by
  simp only [headerBytes, List.append_assoc] at reads
  have behind := reads.right.right
  rw [length_bigEndian] at behind
  exact ⟨reads.left.slice, behind.left.readU16 small⟩

/-- **Reading.** The image of a shaped node that fits parses to the node. -/
theorem parse_of_isImage {node : Node} {page : RawPage} {kept : Bytes}
    (image : node.IsImage kept page.data) (behind : kept.length = headerOffset page.id)
    (fits : node.fits page.id = true) (shaped : node.Shaped) : parse page = .ok node := by
  have room := room_of_fits fits
  obtain ⟨gap, bytes⟩ := image
  have size := congrArg List.length bytes
  rw [page.data.property] at size
  simp only [List.length_append, length_pointers, List.length_replicate, behind] at size
  have front : Reads page.data (headerOffset page.id)
      (node.heading ++ pointers node.cellStart node.cellBytes) := by
    refine ⟨by omega, List.replicate gap 0 ++ node.cellBytes.flatten, ?_⟩
    rw [bytes, ← behind]
    simp only [List.append_assoc, List.drop_left]
  have body : Reads page.data node.cellStart node.cellBytes.flatten := by
    refine ⟨Nat.sub_le _ _, [], ?_⟩
    rw [bytes, List.append_nil, List.drop_left']
    simp only [List.length_append, length_pointers, List.length_replicate, behind, cellStart]
    omega
  cases node with
  | leaf l =>
      have count : l.cells.length < 65536 := by
        simp only [cellBytes, List.length_map, pageSize] at room
        omega
      have pointed := front.right
      simp only [heading, length_headerBytes] at pointed
      obtain ⟨type, number⟩ := readHeader front.left count
      have cells := parseLeafCells_encode l.cells pointed body shaped
      simp only [parse, type, number, Outcome.ok_bind, if_pos, cells]
      rfl
  | interior n =>
      have count : n.cells.length < 65536 := by
        simp only [cellBytes, List.length_map, pageSize] at room
        omega
      have pointed := front.right
      have headed := front.left
      simp only [heading] at headed pointed
      simp only [List.length_append, length_headerBytes, length_bigEndian] at pointed
      obtain ⟨type, number⟩ := readHeader headed.left count
      have right := headed.right.readU32
      rw [length_headerBytes] at right
      have cells := parseInteriorCells_encode n.cells pointed body
      have other : ¬ [tableInterior] = [tableLeaf] := by decide
      simp only [parse, type, number, Outcome.ok_bind, if_neg other, if_pos, right, cells]
      rfl

/-- **Round trip.** What the tree writes for a node that fits is read as the
node. -/
theorem parse_serializeInto {node : Node} {page : RawPage} (fits : node.fits page.id = true)
    (shaped : node.Shaped) :
    ∃ written, node.serializeInto page = .ok ⟨page.id, written⟩ ∧
      parse ⟨page.id, written⟩ = .ok node := by
  obtain ⟨written, wrote, image⟩ := serializeInto_of_fits fits
  refine ⟨written, wrote, parse_of_isImage image ?_ fits shaped⟩
  have room := room_of_fits fits
  rw [List.length_take, page.data.property]
  exact Nat.min_eq_left (by omega)

end Node

end Squrust.Core
