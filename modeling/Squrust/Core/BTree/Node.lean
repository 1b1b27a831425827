import Squrust.Core.Page
import Squrust.Core.Varint
import Squrust.Foundation.MachineIntegers

/-!
# B-tree pages

The in-memory form of a table b-tree page and its layout on disk: a header at
the start of the page (after the file header on page 1), an array of cell
pointers in key order, and the cells, packed against the end of the page in the
same order. A leaf cell holds a record, or the first part of one whose rest is
in overflow pages; an interior cell holds a child and the largest rowid of the
child's subtree.

Arithmetic and slicing that go wrong are panics here, as in a checked build.
-/

set_option autoImplicit false

namespace Squrust.Core

open Squrust.Foundation

/-- Page type of a table leaf. -/
def tableLeaf : UInt8 := 0x0d

/-- Page type of an interior table page. -/
def tableInterior : UInt8 := 0x05

/-- Usable bytes per page. -/
abbrev usable : Nat := pageSize

/-- Where the b-tree header starts: page 1 shares its first bytes with the file
header. -/
def headerOffset (pageId : PageId) : Nat := if pageId = 1 then 100 else 0

/-- The rowid as the varint stores it. -/
def zigzag (v : Int64) : UInt64 := v.toUInt64

def unzigzag (v : UInt64) : Int64 := v.toInt64

@[simp] theorem unzigzag_zigzag (v : Int64) : unzigzag (zigzag v) = v := Int64.toInt64_toUInt64 v

/-- The inline part of a record of length `p`. -/
def inlineLenFor (p : Nat) : Nat :=
  let u := usable
  let x := u - 35
  if p ≤ x then p
  else
    let m := (u - 12) * 32 / 255 - 23
    let k := m + (p - m) % (u - 4)
    if k ≤ x then k else m

structure LeafCell where
  rowid : Int64
  /-- Total record length, inline and overflow. -/
  payloadLen : UInt64
  /-- First overflow page, or 0 if the record is fully inline. -/
  overflow : PageId
  /-- The inline portion of the record. -/
  inlined : Bytes
deriving DecidableEq

namespace LeafCell

def encodedLen (cell : LeafCell) : Nat :=
  Varint.len cell.payloadLen + Varint.len (zigzag cell.rowid) + cell.inlined.length +
    if cell.overflow ≠ 0 then 4 else 0

/-- The bytes of a cell, as `serialize_into` collects them. -/
def encode (cell : LeafCell) : Bytes :=
  let tmp := (Varint.write [] cell.payloadLen).1
  let tmp := (Varint.write tmp (zigzag cell.rowid)).1
  let tmp := tmp ++ cell.inlined
  if cell.overflow ≠ 0 then tmp ++ bigEndian 4 cell.overflow.toNat else tmp

end LeafCell

structure LeafNode where
  cells : List LeafCell
deriving DecidableEq

namespace LeafNode

/-- Binary search by rowid: the index of the cell, or where it would go. -/
def search (leaf : LeafNode) (rowid : Int64) : Except Nat Nat :=
  let i := (leaf.cells.takeWhile fun c => decide (c.rowid < rowid)).length
  match leaf.cells[i]? with
  | some c => if c.rowid = rowid then .ok i else .error i
  | none => .error i

def used (leaf : LeafNode) (pageId : PageId) : Nat :=
  headerOffset pageId + 8 + leaf.cells.length * 2 + (leaf.cells.map LeafCell.encodedLen).sum

def fits (leaf : LeafNode) (pageId : PageId) : Bool := decide (leaf.used pageId ≤ pageSize)

theorem fits_iff {leaf : LeafNode} {pageId : PageId} :
    leaf.fits pageId = true ↔ leaf.used pageId ≤ pageSize := decide_eq_true_iff

end LeafNode

/-- Cells are a left child and the largest rowid of its subtree. -/
structure InteriorNode where
  cells : List (PageId × Int64)
  rightChild : PageId
deriving DecidableEq

namespace InteriorNode

/-- The child to descend for `rowid`. -/
def childFor (node : InteriorNode) (rowid : Int64) : PageId :=
  match node.cells.find? (fun cell => decide (rowid ≤ cell.2)) with
  | some cell => cell.1
  | none => node.rightChild

def cellLen (key : Int64) : Nat := 4 + Varint.len (zigzag key)

def used (node : InteriorNode) (pageId : PageId) : Nat :=
  headerOffset pageId + 12 + node.cells.length * 2 +
    (node.cells.map fun cell => cellLen cell.2).sum

def fits (node : InteriorNode) (pageId : PageId) : Bool := decide (node.used pageId ≤ pageSize)

theorem fits_iff {node : InteriorNode} {pageId : PageId} :
    node.fits pageId = true ↔ node.used pageId ≤ pageSize := decide_eq_true_iff

end InteriorNode

inductive Node where
  | leaf (leaf : LeafNode)
  | interior (node : InteriorNode)
deriving DecidableEq

namespace Node

def emptyLeaf : Node := .leaf ⟨[]⟩

/-- The node's own check that it fits a page. -/
def fits : Node → PageId → Bool
  | .leaf l, pageId => l.fits pageId
  | .interior n, pageId => n.fits pageId

/-! ## Writing a page -/

/-- `write_u16`, for a number that is cut to 16 bits. -/
def writeU16 (buf : PageData) (offset v : Nat) : Outcome StorageError PageData :=
  buf.copyFrom offset (bigEndian 2 v)

/-- `write_u32`. -/
def writeU32 (buf : PageData) (offset : Nat) (v : UInt32) : Outcome StorageError PageData :=
  buf.copyFrom offset (bigEndian 4 v.toNat)

/-- `PAGE_SIZE - total`. -/
def contentStart (total : Nat) : Outcome StorageError Nat :=
  if total ≤ pageSize then .ok (pageSize - total) else .panic "attempt to subtract with overflow"

/-- Zero everything except, on page 1, the file header. -/
def cleared (off : Nat) (data : PageData) : PageData :=
  ⟨data.val.take off ++ List.replicate (pageSize - off) 0, by
    have := data.property
    simp only [List.length_append, List.length_take, List.length_replicate]
    omega⟩

/-- The leaf loop: a pointer and the cell it points to. -/
def serializeLeafCells : List LeafCell → Nat → Nat → PageData → Outcome StorageError PageData
  | [], _, _, buf => .ok buf
  | cell :: cells, ptr, cellPos, buf => do
      let buf ← writeU16 buf ptr cellPos
      let tmp := cell.encode
      let buf ← buf.copyFrom cellPos tmp
      serializeLeafCells cells (ptr + 2) (cellPos + tmp.length) buf

/-- The interior loop: a pointer, the child and the key. -/
def serializeInteriorCells :
    List (PageId × Int64) → Nat → Nat → PageData → Outcome StorageError PageData
  | [], _, _, buf => .ok buf
  | (child, key) :: cells, ptr, cellPos, buf => do
      let buf ← writeU16 buf ptr cellPos
      let buf ← buf.copyFrom cellPos (bigEndian 4 child.toNat)
      let cellPos := cellPos + 4
      let tmp := (Varint.write [] (zigzag key)).1
      let buf ← buf.copyFrom cellPos tmp
      serializeInteriorCells cells (ptr + 2) (cellPos + tmp.length) buf

def serializeInto (node : Node) (page : RawPage) : Outcome StorageError RawPage := do
  let off := headerOffset page.id
  let buf := cleared off page.data
  match node with
  | .leaf l =>
      let start ← contentStart (l.cells.map LeafCell.encodedLen).sum
      let buf ← buf.copyFrom off [tableLeaf]
      let buf ← writeU16 buf (off + 1) 0
      let buf ← writeU16 buf (off + 3) l.cells.length
      let buf ← writeU16 buf (off + 5) start
      let buf ← buf.copyFrom (off + 7) [0]
      let buf ← serializeLeafCells l.cells (off + 8) start buf
      return ⟨page.id, buf⟩
  | .interior n =>
      let start ← contentStart (n.cells.map fun cell => InteriorNode.cellLen cell.2).sum
      let buf ← buf.copyFrom off [tableInterior]
      let buf ← writeU16 buf (off + 1) 0
      let buf ← writeU16 buf (off + 3) n.cells.length
      let buf ← writeU16 buf (off + 5) start
      let buf ← buf.copyFrom (off + 7) [0]
      let buf ← writeU32 buf (off + 8) n.rightChild
      let buf ← serializeInteriorCells n.cells (off + 12) start buf
      return ⟨page.id, buf⟩

/-! ## Reading a page -/

/-- `read_u16`. -/
def readU16 (buf : PageData) (offset : Nat) : Outcome StorageError Nat := do
  return ofBigEndian (← buf.slice offset 2)

/-- `read_u32`. -/
def readU32 (buf : PageData) (offset : Nat) : Outcome StorageError UInt32 := do
  return UInt32.ofNat (ofBigEndian (← buf.slice offset 4))

/-- `varint::read(&buf[pos..])`, with the error it turns into. -/
def readVarint (buf : PageData) (pos : Nat) (what : String) :
    Outcome StorageError (UInt64 × Nat) := do
  .orErr (.corrupt what) (Varint.read (← buf.sliceFrom pos))

def parseLeafCell (buf : PageData) (pos : Nat) : Outcome StorageError LeafCell := do
  let (payloadLen, n) ← readVarint buf pos "bad payload varint"
  let pos := pos + n
  let (rowidRaw, n) ← readVarint buf pos "bad rowid varint"
  let pos := pos + n
  let rowid := unzigzag rowidRaw
  let p := payloadLen.toNat
  let x := usable - 35
  if p ≤ x then
    let inlined ← buf.slice pos p
    return ⟨rowid, payloadLen, 0, inlined⟩
  else
    let inlineLen := inlineLenFor p
    let inlined ← buf.slice pos inlineLen
    let overflow ← readU32 buf (pos + inlineLen)
    return ⟨rowid, payloadLen, overflow, inlined⟩

/-- The cells at `numCells` pointers. -/
def parseLeafCells (buf : PageData) : Nat → Nat → Outcome StorageError (List LeafCell)
  | 0, _ => .ok []
  | numCells + 1, ptr => do
      let cellOff ← readU16 buf ptr
      let cell ← parseLeafCell buf cellOff
      let cells ← parseLeafCells buf numCells (ptr + 2)
      return cell :: cells

def parseInteriorCells (buf : PageData) : Nat → Nat → Outcome StorageError (List (PageId × Int64))
  | 0, _ => .ok []
  | numCells + 1, ptr => do
      let cellOff ← readU16 buf ptr
      let child ← readU32 buf cellOff
      let (key, _) ← readVarint buf (cellOff + 4) "bad interior rowid varint"
      let cells ← parseInteriorCells buf numCells (ptr + 2)
      return (child, unzigzag key) :: cells

/-- Two hexadecimal digits. -/
def hexByte (byte : UInt8) : String :=
  let digits := Nat.toDigits 16 byte.toNat
  String.ofList (if digits.length < 2 then '0' :: digits else digits)

def parse (page : RawPage) : Outcome StorageError Node := do
  let off := headerOffset page.id
  let buf := page.data
  let ty ← buf.slice off 1
  let numCells ← readU16 buf (off + 3)
  if ty = [tableLeaf] then
    return .leaf ⟨← parseLeafCells buf numCells (off + 8)⟩
  else if ty = [tableInterior] then
    let rightChild ← readU32 buf (off + 8)
    return .interior ⟨← parseInteriorCells buf numCells (off + 12), rightChild⟩
  else
    .err (.corrupt ("unsupported b-tree page type 0x" ++ hexByte (ty.headD 0)))

end Node

end Squrust.Core
