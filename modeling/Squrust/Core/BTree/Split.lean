import Squrust.Core.BTree.Node

/-!
# Splitting a full node

A leaf is cut by size: at the first cell at which at least half of the bytes
are on the left, and never before the first or after the last cell. An interior
node is cut at the middle cell, whose key goes up and whose child becomes the
right child of the left part.

`splitLeaf_cut` and `splitInterior_cut` say where a node was cut; what the tree
needs of a split follows from the cut alone.
-/

set_option autoImplicit false

namespace Squrust.Core

open Squrust.Foundation

def leafCellLen (c : LeafCell) : Nat :=
  Varint.len c.payloadLen + Varint.len c.rowid.toUInt64 + c.inlined.length +
    if c.overflow ≠ 0 then 4 else 0

/-- The loop of `split_leaf` from cell `i` on; 0 when it ends without a cut. -/
def halfway (total : Nat) : List LeafCell → Nat → Nat → Nat
  | [], _, _ => 0
  | c :: cells, i, acc =>
      let acc := acc + leafCellLen c
      if acc * 2 ≥ total then i + 1 else halfway total cells (i + 1) acc

/-- The left part, the right part and the largest rowid of the left part. -/
def splitLeaf (leaf : LeafNode) : Outcome StorageError (LeafNode × LeafNode × Int64) := do
  let total := (leaf.cells.map leafCellLen).sum
  let idx := halfway total leaf.cells 0 0
  if leaf.cells.length = 0 then
    .panic "attempt to subtract with overflow"
  -- `clamp` asserts that its bounds are in order
  else if leaf.cells.length - 1 < 1 then
    .panic "assertion failed: min <= max"
  else
    let idx := min (max idx 1) (leaf.cells.length - 1)
    let rightCells := leaf.cells.drop idx
    let cells := leaf.cells.take idx
    let last ← .orPanic "called `Option::unwrap()` on a `None` value" cells.getLast?
    return (⟨cells⟩, ⟨rightCells⟩, last.rowid)

/-- The left part, the right part and the key of the middle cell. -/
def splitInterior (node : InteriorNode) :
    Outcome StorageError (InteriorNode × InteriorNode × Int64) := do
  let n := node.cells.length
  if n = 0 then
    .panic "attempt to subtract with overflow"
  else
    let m := min (max (n / 2) 0) (n - 1)
    let leftCells := node.cells.take m
    let (midChild, sep) ← .orPanic "index out of bounds" node.cells[m]?
    let rightCells := node.cells.drop (m + 1)
    return (⟨leftCells, midChild⟩, ⟨rightCells, node.rightChild⟩, sep)

/-- Both parts of a leaf have cells, in their order, and the separator is the
rowid of the last one on the left. -/
theorem splitLeaf_cut {leaf left right : LeafNode} {sep : Int64}
    (split : splitLeaf leaf = .ok (left, right, sep)) :
    ∃ before last, left.cells = before ++ [last] ∧ last.rowid = sep ∧ right.cells ≠ [] ∧
      leaf.cells = left.cells ++ right.cells := by
  unfold splitLeaf at split
  simp only at split
  split at split
  · simp at split
  split at split
  · simp at split
  · next nonempty several =>
    simp only [Outcome.bind_eq_ok, Outcome.orPanic_eq_ok, Outcome.pure_eq_ok, Prod.mk.injEq]
      at split
    obtain ⟨last, isLast, rfl, rfl, rfl⟩ := split
    obtain ⟨before, shape⟩ := List.getLast?_eq_some_iff.mp isLast
    refine ⟨before, last, shape, rfl, ?_, (List.take_append_drop _ _).symm⟩
    intro empty
    have := List.drop_eq_nil_iff.mp empty
    omega

/-- The separator is the key of a cell; the cells before it and its child are
on the left, the cells after it and the right child on the right. -/
theorem splitInterior_cut {node left right : InteriorNode} {sep : Int64}
    (split : splitInterior node = .ok (left, right, sep)) :
    node.cells = left.cells ++ (left.rightChild, sep) :: right.cells ∧
      right.rightChild = node.rightChild := by
  unfold splitInterior at split
  simp only at split
  split at split
  · simp at split
  · next nonempty =>
    simp only [Outcome.bind_eq_ok, Outcome.orPanic_eq_ok, Outcome.pure_eq_ok, Prod.mk.injEq]
      at split
    obtain ⟨⟨child, key⟩, middle, rfl, rfl, rfl⟩ := split
    obtain ⟨within, entry⟩ := List.getElem?_eq_some_iff.mp middle
    refine ⟨?_, rfl⟩
    conv_lhs => rw [← List.take_append_drop _ node.cells, List.drop_eq_getElem_cons within, entry]

end Squrust.Core
