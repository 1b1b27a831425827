import Squrust.Core.BTree.Split

/-!
# The table b-tree

The operations of the b-tree over whatever keeps its pages: a source to read
pages from, a sink that also gives out, takes and frees pages. Both work on a
state, which even reading may change (a cache).

The loops and recursions follow pages, so their end depends on what the pages
hold; they have a budget of rounds. Writing keeps a record besides the sink: did
every node that was written fit its page (`Audited.allFit`)? Nothing depends on
it, it only says which runs stayed within the pages.
-/

set_option autoImplicit false

namespace Squrust.Core

open Squrust.Foundation

/-- Read access to pages. -/
class PageSource (σ : Type) where
  getPage : PageId → Exec σ StorageError RawPage

/-- Read and write access to pages. -/
class PageSink (σ : Type) extends PageSource σ where
  allocPage : Exec σ StorageError PageId
  putPage : RawPage → Exec σ StorageError Unit
  freePage : PageId → Exec σ StorageError Unit

/-- A sink, and whether every node written so far passed its own check. -/
structure Audited (σ : Type) where
  sink : σ
  allFit : Bool

namespace Audited

variable {σ α : Type}

def onSink (code : Exec σ StorageError α) : Exec (Audited σ) StorageError α :=
  Exec.onPart Audited.sink (fun sink audited => { audited with sink }) code

instance [PageSource σ] : PageSource (Audited σ) where
  getPage id := onSink (PageSource.getPage id)

instance [PageSink σ] : PageSink (Audited σ) where
  allocPage := onSink PageSink.allocPage
  putPage page := onSink (PageSink.putPage page)
  freePage id := onSink (PageSink.freePage id)

/-- Note the check of a node about to be written. -/
def note (fits : Bool) : Exec (Audited σ) StorageError Unit := fun audited =>
  .ok () { audited with allFit := audited.allFit && fits }

end Audited

/-- Record bytes carried by each overflow page. -/
abbrev overflowCap : Nat := usable - 4

/-- A record: no byte slice is longer than `isize::MAX`. -/
abbrev Record := { bytes : Bytes // bytes.length < 2 ^ 63 }

/-- What a split leaves to the parent: the largest rowid on the left, and the
new page on the right. -/
structure Split where
  sepKey : Int64
  rightPage : PageId
deriving DecidableEq

namespace BTree

variable {σ : Type}

/-! ## Reads -/

section Reads

variable [PageSource σ]

def getNode (id : PageId) : Exec σ StorageError Node := do
  let page ← PageSource.getPage id
  Exec.lift (Node.parse page)

/-- The loop of `read_value`. -/
def readValueLoop (cell : LeafCell) : Nat → PageId → Bytes → Exec σ StorageError Bytes
  | 0, _, _ => Exec.outOfFuel
  | fuel + 1, next, out =>
      if next ≠ 0 then do
        let page ← PageSource.getPage next
        let np ← Exec.lift (Node.readU32 page.data 0)
        let remaining ← Exec.lift <|
          if out.length ≤ cell.payloadLen.toNat then .ok (cell.payloadLen.toNat - out.length)
          else .panic "attempt to subtract with overflow"
        let take := min remaining overflowCap
        let chunk ← Exec.lift (page.data.slice 4 take)
        readValueLoop cell fuel np (out ++ chunk)
      else return out

/-- `Vec::with_capacity`, which makes no vector longer than `isize::MAX` bytes. -/
def withCapacity (capacity : Nat) : Outcome StorageError Unit :=
  if capacity < 2 ^ 63 then .ok () else .panic "capacity overflow"

def readValue (fuel : Nat) (cell : LeafCell) : Exec σ StorageError Bytes := do
  if cell.overflow = 0 then
    return cell.inlined
  else
    Exec.lift (withCapacity cell.payloadLen.toNat)
    let out ← readValueLoop cell fuel cell.overflow cell.inlined
    if out.length ≠ cell.payloadLen.toNat then
      Exec.err (.corrupt ("overflow length mismatch: " ++ toString out.length ++ " vs " ++
        toString cell.payloadLen.toNat))
    else return out

/-- `get`, from page `cur` on. -/
def get : Nat → PageId → Int64 → Exec σ StorageError (Option Bytes)
  | 0, _, _ => Exec.outOfFuel
  | fuel + 1, cur, rowid => do
      match ← getNode cur with
      | .interior n => get fuel (n.childFor rowid) rowid
      | .leaf l =>
          match l.search rowid with
          | .ok i =>
              let cell ← Exec.lift (.orPanic "index out of bounds" l.cells[i]?)
              return some (← readValue fuel cell)
          | .error _ => return none

/-- The largest rowid, found at the right edge, from page `cur` on. -/
def lastKey : Nat → PageId → Exec σ StorageError (Option Int64)
  | 0, _ => Exec.outOfFuel
  | fuel + 1, cur => do
      match ← getNode cur with
      | .interior n => lastKey fuel n.rightChild
      | .leaf l => return l.cells.getLast?.map LeafCell.rowid

end Reads

/-! ## Writes -/

section Writes

variable [PageSink σ]

/-- Allocate a fresh empty tree; its root. -/
def create : Exec (Audited σ) StorageError PageId := do
  let root ← PageSink.allocPage
  Audited.note (Node.emptyLeaf.fits root)
  let page ← Exec.lift (Node.emptyLeaf.serializeInto (RawPage.new root))
  PageSink.putPage page
  return root

def writeNode (pageId : PageId) (node : Node) : Exec (Audited σ) StorageError Unit := do
  Audited.note (node.fits pageId)
  let page ← Exec.lift (node.serializeInto (RawPage.new pageId))
  PageSink.putPage page

/-- `tail.chunks(OVERFLOW_CAP)`, for a tail of at most `n` bytes. -/
def chunksUpTo : Nat → Bytes → List Bytes
  | 0, _ => []
  | n + 1, tail =>
      if tail = [] then [] else tail.take overflowCap :: chunksUpTo n (tail.drop overflowCap)

/-- One page for each chunk. -/
def allocAll : List Bytes → Exec (Audited σ) StorageError (List PageId)
  | [] => return []
  | _ :: chunks => do
      let id ← PageSink.allocPage
      let ids ← allocAll chunks
      return id :: ids

/-- The loop of `write_overflow`: each page points to the next, the last to 0. -/
def putChunks : List PageId → List Bytes → Exec (Audited σ) StorageError Unit
  | id :: ids, chunk :: chunks => do
      let next := ids.headD 0
      let page := RawPage.new id
      let data ← Exec.lift (page.data.copyFrom 0 (bigEndian 4 next.toNat))
      let data ← Exec.lift (data.copyFrom 4 chunk)
      PageSink.putPage ⟨id, data⟩
      putChunks ids chunks
  | _, _ => return ()

/-- Write the tail of a record into a chain of overflow pages. -/
def writeOverflow (tail : Bytes) : Exec (Audited σ) StorageError PageId := do
  let chunks := chunksUpTo tail.length tail
  let ids ← allocAll chunks
  putChunks ids chunks
  Exec.lift (.orPanic "index out of bounds" ids.head?)

def freeOverflowChain : Nat → PageId → Exec (Audited σ) StorageError Unit
  | 0, _ => Exec.outOfFuel
  | fuel + 1, next =>
      if next ≠ 0 then do
        let page ← PageSource.getPage next
        let np ← Exec.lift (Node.readU32 page.data 0)
        PageSink.freePage next
        freeOverflowChain fuel np
      else return ()

/-- Free the chain of a cell that is gone, if it had one. -/
def releaseChain (fuel : Nat) (freed : PageId) : Exec (Audited σ) StorageError Unit :=
  if freed ≠ 0 then freeOverflowChain fuel freed else return ()

def makeCell (rowid : Int64) (record : Record) : Exec (Audited σ) StorageError LeafCell := do
  let payloadLen := UInt64.ofNat record.val.length
  let x := usable - 35
  if record.val.length ≤ x then
    return ⟨rowid, payloadLen, 0, record.val⟩
  else
    let inlineLen := inlineLenFor payloadLen.toNat
    let inlined := record.val.take inlineLen
    let overflow ← writeOverflow (record.val.drop inlineLen)
    return ⟨rowid, payloadLen, overflow, inlined⟩

/-- The leaf with the cell in place, and the overflow chain of the cell it
replaces. -/
def placeCell (leaf : LeafNode) (cell : LeafCell) : Outcome StorageError (PageId × LeafNode) := do
  match leaf.search cell.rowid with
  | .ok i =>
      let old ← .orPanic "index out of bounds" leaf.cells[i]?
      return (old.overflow, ⟨leaf.cells.set i cell⟩)
  | .error i => return (0, ⟨leaf.cells.insertIdx i cell⟩)

/-- Write a leaf that may have become too large. -/
def storeLeaf (pageId : PageId) (leaf : LeafNode) : Exec (Audited σ) StorageError (Option Split) := do
  if leaf.fits pageId then
    writeNode pageId (.leaf leaf)
    return none
  else
    let (left, right, sep) ← Exec.lift (splitLeaf leaf)
    let rightPage ← PageSink.allocPage
    writeNode pageId (.leaf left)
    writeNode rightPage (.leaf right)
    return some ⟨sep, rightPage⟩

/-- The child at a position; no position is the right child. -/
def childAtPos (node : InteriorNode) : Option Nat → Outcome StorageError PageId
  | some i => do
      let (child, _) ← .orPanic "index out of bounds" node.cells[i]?
      return child
  | none => .ok node.rightChild

/-- The node after its child at `pos` was split. -/
def linkSplit (node : InteriorNode) (pos : Option Nat) (child : PageId) (split : Split) :
    Outcome StorageError InteriorNode :=
  match pos with
  | some i => do
      let (_, oldKey) ← .orPanic "index out of bounds" node.cells[i]?
      let cells := node.cells.set i (child, split.sepKey)
      return ⟨cells.insertIdx (i + 1) (split.rightPage, oldKey), node.rightChild⟩
  | none => .ok ⟨node.cells ++ [(child, split.sepKey)], split.rightPage⟩

/-- Write an interior node that may have become too large. -/
def storeInterior (pageId : PageId) (node : InteriorNode) :
    Exec (Audited σ) StorageError (Option Split) := do
  if node.fits pageId then
    writeNode pageId (.interior node)
    return none
  else
    let (left, right, sep) ← Exec.lift (splitInterior node)
    let rightPage ← PageSink.allocPage
    writeNode pageId (.interior left)
    writeNode rightPage (.interior right)
    return some ⟨sep, rightPage⟩

/-- What the step at an interior node does after the step at its child. -/
def afterChild (pageId : PageId) (node : InteriorNode) (pos : Option Nat) (child : PageId) :
    Option Split → Exec (Audited σ) StorageError (Option Split)
  | none => return none
  | some split => do
      let node ← Exec.lift (linkSplit node pos child split)
      storeInterior pageId node

def insertRec : Nat → PageId → LeafCell → Exec (Audited σ) StorageError (Option Split)
  | 0, _, _ => Exec.outOfFuel
  | fuel + 1, pageId, cell => do
      match ← getNode pageId with
      | .leaf leaf =>
          let (freed, leaf) ← Exec.lift (placeCell leaf cell)
          let result ← storeLeaf pageId leaf
          releaseChain fuel freed
          return result
      | .interior node =>
          let pos := node.cells.findIdx? fun (_, key) => decide (cell.rowid ≤ key)
          let child ← Exec.lift (childAtPos node pos)
          let split ← insertRec fuel child cell
          afterChild pageId node pos child split

/-- The root keeps its page: what it held moves to a new page. -/
def growRoot (root : PageId) (split : Split) : Exec (Audited σ) StorageError Unit := do
  let leftNode ← getNode root
  let leftPage ← PageSink.allocPage
  writeNode leftPage leftNode
  writeNode root (.interior ⟨[(leftPage, split.sepKey)], split.rightPage⟩)

def insert (fuel : Nat) (root : PageId) (rowid : Int64) (record : Record) :
    Exec (Audited σ) StorageError Unit := do
  let cell ← makeCell rowid record
  match ← insertRec fuel root cell with
  | some split => growRoot root split
  | none => return ()

/-- `delete`, from page `pageId` on: was there a cell to remove? -/
def delete : Nat → PageId → Int64 → Exec (Audited σ) StorageError Bool
  | 0, _, _ => Exec.outOfFuel
  | fuel + 1, pageId, rowid => do
      match ← getNode pageId with
      | .interior n => delete fuel (n.childFor rowid) rowid
      | .leaf leaf =>
          match leaf.search rowid with
          | .ok i =>
              let removed ← Exec.lift (.orPanic "index out of bounds" leaf.cells[i]?)
              writeNode pageId (.leaf ⟨leaf.cells.eraseIdx i⟩)
              releaseChain fuel removed.overflow
              return true
          | .error _ => return false

end Writes

end BTree

/-! ## Cursors -/

/-- A cursor: the interior nodes above the leaf, the lowest first, each with the
index of the child below it, and a leaf with the index of the next cell. -/
structure BTreeCursor where
  stack : List (InteriorNode × Nat)
  leaf : Option (LeafNode × Nat)

namespace BTreeCursor

variable {σ : Type} [PageSource σ]

/-- Index `cells.len()` is the right child. -/
def childAt (node : InteriorNode) (idx : Nat) : PageId :=
  match node.cells[idx]? with
  | some (child, _) => child
  | none => node.rightChild

/-- The index of the cell, or where it would go. -/
def position (leaf : LeafNode) (rowid : Int64) : Nat :=
  match leaf.search rowid with
  | .ok i => i
  | .error i => i

/-- The loop of `seek` at page `cur`. -/
def seekLoop (rowid : Int64) :
    Nat → PageId → List (InteriorNode × Nat) → Exec σ StorageError BTreeCursor
  | 0, _, _ => Exec.outOfFuel
  | fuel + 1, cur, stack => do
      match ← BTree.getNode cur with
      | .interior n =>
          let idx := (n.cells.findIdx? fun (_, key) => decide (rowid ≤ key)).getD n.cells.length
          seekLoop rowid fuel (childAt n idx) ((n, idx) :: stack)
      | .leaf l => return ⟨stack, some (l, position l rowid)⟩

def seek (fuel : Nat) (root : PageId) (rowid : Int64) : Exec σ StorageError BTreeCursor :=
  seekLoop rowid fuel root []

def seekFirst (fuel : Nat) (root : PageId) : Exec σ StorageError BTreeCursor :=
  seek fuel root Int64.minValue

def descendLeftmost : Nat → PageId → List (InteriorNode × Nat) → Exec σ StorageError BTreeCursor
  | 0, _, _ => Exec.outOfFuel
  | fuel + 1, cur, stack => do
      match ← BTree.getNode cur with
      | .interior n => descendLeftmost fuel (childAt n 0) ((n, 0) :: stack)
      | .leaf l => return ⟨stack, some (l, 0)⟩

/-- The inner loop of `next`: the lowest node with a further child, and the
child. -/
def nextChild : List (InteriorNode × Nat) → Option (PageId × List (InteriorNode × Nat))
  | [] => none
  | (node, idx) :: stack =>
      if idx + 1 ≤ node.cells.length then
        some (childAt node (idx + 1), (node, idx + 1) :: stack)
      else nextChild stack

/-- The next row, or nothing at the end; and the cursor behind it. -/
def next : Nat → BTreeCursor → Exec σ StorageError (Option (Int64 × Bytes) × BTreeCursor)
  | 0, _ => Exec.outOfFuel
  | fuel + 1, cursor => do
      let here := cursor.leaf.bind fun (leaf, i) => (leaf.cells[i]?).map fun cell => (leaf, i, cell)
      match here with
      | some (leaf, i, cell) =>
          let value ← BTree.readValue fuel cell
          return (some (cell.rowid, value), { cursor with leaf := some (leaf, i + 1) })
      | none =>
          match nextChild cursor.stack with
          | none => return (none, ⟨[], none⟩)
          | some (child, stack) =>
              let cursor ← descendLeftmost fuel child stack
              next fuel cursor

/-- Every row from the cursor on. -/
def collect : Nat → BTreeCursor → Exec σ StorageError (List (Int64 × Bytes))
  | 0, _ => Exec.outOfFuel
  | fuel + 1, cursor => do
      match ← next fuel cursor with
      | (none, _) => return []
      | (some row, cursor) =>
          let rows ← collect fuel cursor
          return row :: rows

end BTreeCursor

end Squrust.Core
