import Squrust.Core.BTree.Descent

/-!
# The sizes of the halves

A leaf with a new cell that does not fit its page is split at the first cell at which
half of its bytes are on the left. The right half then always fits a page. The left
half need not: the cell at which the half is reached may be large, and stays on the
left. The exact condition is on the cells up to that one (`HalfFits`,
`splitLeaf_fits_iff`).
-/

set_option autoImplicit false

namespace Squrust.Core

open Squrust.Foundation

/-! ## Sizes -/

/-- The bytes of cells. -/
def cellsLen (cells : List LeafCell) : Nat := (cells.map leafCellLen).sum

theorem leafCellLen_eq (cell : LeafCell) : leafCellLen cell = cell.encodedLen := rfl

@[simp] theorem cellsLen_nil : cellsLen [] = 0 := rfl

@[simp] theorem cellsLen_cons (cell : LeafCell) (cells : List LeafCell) :
    cellsLen (cell :: cells) = leafCellLen cell + cellsLen cells := by
  simp [cellsLen]

@[simp] theorem cellsLen_append (first second : List LeafCell) :
    cellsLen (first ++ second) = cellsLen first + cellsLen second := by
  simp [cellsLen]

theorem cellsLen_sublist {first second : List LeafCell} (sublist : first.Sublist second) :
    cellsLen first ≤ cellsLen second := by
  induction sublist with
  | slnil => exact le_rfl
  | cons cell _ ih => exact ih.trans (by rw [cellsLen_cons]; exact Nat.le_add_left _ _)
  | cons_cons cell _ ih =>
      rw [cellsLen_cons, cellsLen_cons]
      exact Nat.add_le_add_left ih _

theorem LeafNode.used_eq (leaf : LeafNode) (pageId : PageId) :
    leaf.used pageId = headerOffset pageId + 8 + leaf.cells.length * 2 + cellsLen leaf.cells := rfl

theorem headerOffset_of_ne {pageId : PageId} (other : pageId ≠ 1) : headerOffset pageId = 0 := if_neg other

theorem two_le_leafCellLen (cell : LeafCell) : 2 ≤ leafCellLen cell := by
  have payload := Varint.one_le_len cell.payloadLen
  have rowid := Varint.one_le_len cell.rowid.toUInt64
  unfold leafCellLen
  omega

/-- A cell of the tree is never larger than a page by itself. -/
theorem leafCellLen_le {cell : LeafCell} (shaped : cell.inlined.length ≤ usable - 35) :
    leafCellLen cell ≤ 4083 := by
  have payload := Varint.len_le_nine cell.payloadLen
  have rowid := Varint.len_le_nine cell.rowid.toUInt64
  unfold leafCellLen
  simp only [usable, pageSize] at shaped
  split
  · omega
  · omega

/-! ## Where the half is reached -/

/-- At this cell half of the bytes are on the left for the first time. -/
structure ReachesHalf (cells before : List LeafCell) (cell : LeafCell) (after : List LeafCell) : Prop where
  cells_eq : cells = before ++ cell :: after
  short : 2 * cellsLen before < cellsLen cells
  reached : cellsLen cells ≤ 2 * (cellsLen before + leafCellLen cell)

/-- The loop stops behind that cell. -/
theorem halfway_eq {total : Nat} {cells : List LeafCell} {i acc : Nat} (short : 2 * acc < total)
    (enough : total ≤ 2 * (acc + cellsLen cells)) :
    ∃ before cell after, cells = before ++ cell :: after ∧ 2 * (acc + cellsLen before) < total ∧
      total ≤ 2 * (acc + cellsLen before + leafCellLen cell) ∧
      halfway total cells i acc = i + before.length + 1 := by
  induction cells generalizing i acc with
  | nil =>
      rw [cellsLen_nil] at enough
      omega
  | cons cell cells ih =>
      rw [cellsLen_cons] at enough
      by_cases reached : (acc + leafCellLen cell) * 2 ≥ total
      · refine ⟨[], cell, cells, rfl, by simpa using short, by simp only [cellsLen_nil]; omega, ?_⟩
        simp only [halfway, if_pos reached, List.length_nil, Nat.add_zero]
      · obtain ⟨before, last, after, rfl, below, above, index⟩ :=
          @ih (i + 1) (acc + leafCellLen cell) (by omega) (by omega)
        refine ⟨cell :: before, last, after, rfl, ?_, ?_, ?_⟩
        · rw [cellsLen_cons]
          omega
        · rw [cellsLen_cons]
          omega
        · simp only [halfway, if_neg reached, index, List.length_cons]
          omega

/-- Cells have a place where the half is reached. -/
theorem exists_reachesHalf {cells : List LeafCell} (some : cells ≠ []) :
    ∃ before cell after, ReachesHalf cells before cell after ∧
      halfway (cellsLen cells) cells 0 0 = before.length + 1 := by
  obtain ⟨first, rest, rfl⟩ := List.exists_cons_of_ne_nil some
  have positive := two_le_leafCellLen first
  obtain ⟨before, cell, after, shape, below, above, index⟩ :=
    @halfway_eq (cellsLen (first :: rest)) (first :: rest) 0 0
      (by rw [cellsLen_cons]; omega) (by omega)
  exact ⟨before, cell, after, ⟨shape, by omega, by omega⟩, by omega⟩

/-- There is one such place. -/
theorem ReachesHalf.unique {cells before before' after after' : List LeafCell} {cell cell' : LeafCell}
    (half : ReachesHalf cells before cell after) (half' : ReachesHalf cells before' cell' after') :
    before = before' ∧ cell = cell' ∧ after = after' := by
  obtain ⟨shape, short, reached⟩ := half
  obtain ⟨shape', short', reached'⟩ := half'
  rcases List.append_eq_append_iff.mp (shape.symm.trans shape') with
    ⟨rest, rfl, tail⟩ | ⟨rest, rfl, tail⟩
  · cases rest with
    | nil =>
        obtain ⟨rfl, rfl⟩ := List.cons.inj tail
        exact ⟨(List.append_nil _).symm, rfl, rfl⟩
    | cons next rest =>
        obtain ⟨rfl, rfl⟩ := List.cons.inj tail
        simp only [cellsLen_append, cellsLen_cons] at short'
        omega
  · cases rest with
    | nil =>
        obtain ⟨rfl, rfl⟩ := List.cons.inj tail
        exact ⟨List.append_nil _, rfl, rfl⟩
    | cons next rest =>
        obtain ⟨rfl, rfl⟩ := List.cons.inj tail
        simp only [cellsLen_append, cellsLen_cons] at short
        omega

/-! ## The two halves -/

/-- The leaf is cut behind the cell at which the half is reached, but in front of the
last cell. -/
theorem splitLeaf_eq {leaf : LeafNode} (several : 2 ≤ leaf.cells.length) :
    ∃ before cell after left right sep, ReachesHalf leaf.cells before cell after ∧
      splitLeaf leaf = .ok (left, right, sep) ∧
      ((after ≠ [] ∧ left.cells = before ++ [cell] ∧ right.cells = after) ∨
        (after = [] ∧ left.cells = before ∧ right.cells = [cell])) := by
  have some : leaf.cells ≠ [] := by
    intro none
    rw [none] at several
    cases several
  obtain ⟨before, cell, after, half, index⟩ := exists_reachesHalf some
  have shape := half.cells_eq
  have count := congrArg List.length shape
  simp only [List.length_append, List.length_cons] at count
  -- where `clamp` leaves the index
  let idx := min (max (halfway (cellsLen leaf.cells) leaf.cells 0 0) 1) (leaf.cells.length - 1)
  have inFront : 1 ≤ idx ∧ idx < leaf.cells.length := by omega
  have leftSome : leaf.cells.take idx ≠ [] := by
    rw [ne_eq, List.take_eq_nil_iff]
    rintro (none | none)
    · omega
    · exact some none
  have isLast := List.getLast?_eq_some_getLast leftSome
  have returned : splitLeaf leaf = .ok (⟨leaf.cells.take idx⟩, ⟨leaf.cells.drop idx⟩,
      ((leaf.cells.take idx).getLast leftSome).rowid) := by
    have same : (leaf.cells.map leafCellLen).sum = cellsLen leaf.cells := rfl
    simp only [splitLeaf]
    rw [if_neg (by omega), if_neg (by omega)]
    simp only [same]
    simp only [idx] at isLast
    simp only [isLast, Outcome.orPanic, Outcome.ok_bind]
    rfl
  refine ⟨before, cell, after, _, _, _, half, returned, ?_⟩
  by_cases none : after = []
  · right
    subst none
    have atLast : idx = before.length := by
      simp only [List.length_nil] at count
      omega
    refine ⟨rfl, ?_, ?_⟩
    · rw [shape, atLast, List.take_left]
    · rw [shape, atLast, List.drop_left]
  · left
    have more := List.length_pos_of_ne_nil none
    have atNext : idx = (before ++ [cell]).length := by
      rw [List.length_append, List.length_singleton]
      omega
    have shape' : leaf.cells = (before ++ [cell]) ++ after := by
      rw [shape, List.append_assoc, List.singleton_append]
    refine ⟨none, ?_, ?_⟩
    · rw [shape', atNext, List.take_left]
    · rw [shape', atNext, List.drop_left]

/-- The cell at which half of the bytes are reached is the last one, or it fits a page
together with those in front of it. -/
def LeafNode.HalfFits (leaf : LeafNode) (pageId : PageId) : Prop :=
  ∀ before cell after, ReachesHalf leaf.cells before cell after →
    after = [] ∨ (⟨before ++ [cell]⟩ : LeafNode).fits pageId = true

/-! ## A leaf with a new cell -/

/-- A cell is put between the cells of a leaf, in place of at most one of them. -/
theorem placeCell_cells {leaf grown : LeafNode} {cell : LeafCell} {freed : PageId}
    (placed : BTree.placeCell leaf cell = .ok (freed, grown)) :
    ∃ before replaced after, leaf.cells = before ++ replaced ++ after ∧
      grown.cells = before ++ cell :: after := by
  have cut : ∀ i, leaf.cells = leaf.cells.take i ++ [] ++ leaf.cells.drop i := by
    intro i
    rw [List.append_nil, List.take_append_drop]
  unfold BTree.placeCell at placed
  split at placed
  · next i found =>
    obtain ⟨old, at_i, rest⟩ := Outcome.bind_eq_ok.mp placed
    obtain ⟨within, rfl⟩ := List.getElem?_eq_some_iff.mp (Outcome.orPanic_eq_ok.mp at_i)
    obtain ⟨_, rfl⟩ := Prod.mk.inj (Outcome.pure_eq_ok.mp rest)
    refine ⟨leaf.cells.take i, [leaf.cells[i]], leaf.cells.drop (i + 1), ?_, ?_⟩
    · rw [List.append_assoc, List.singleton_append, ← List.drop_eq_getElem_cons within,
        List.take_append_drop]
    · simp only
      rw [List.set_eq_take_append_cons_drop, if_pos within]
  · next i missing =>
    obtain ⟨_, rfl⟩ := Prod.mk.inj (Outcome.pure_eq_ok.mp placed)
    have within : i ≤ leaf.cells.length := by
      have short : (leaf.cells.takeWhile fun c => decide (c.rowid < cell.rowid)).length ≤
          leaf.cells.length := (List.takeWhile_prefix _).length_le
      unfold LeafNode.search at missing
      simp only at missing
      split at missing
      · split at missing
        · cases missing
        · rwa [← Except.error.inj missing]
      · rwa [← Except.error.inj missing]
    refine ⟨leaf.cells.take i, [], leaf.cells.drop i, cut i, ?_⟩
    have at_i : (leaf.cells.take i).length = i := by
      rw [List.length_take, Nat.min_eq_left within]
    have inserted := insertIdx_append (leaf.cells.take i) (leaf.cells.drop i) cell
    rwa [at_i, List.take_append_drop] at inserted

variable {leaf grown : LeafNode} {cell : LeafCell} {freed pageId rightPage : PageId}

/-- Two items of a list are the same, or one stands behind the other. -/
theorem two_places {α : Type} {before after front behind : List α} {cell middle : α}
    (same : before ++ cell :: after = front ++ middle :: behind) :
    (before = front ∧ cell = middle ∧ after = behind) ∨
      (∃ gap, front = before ++ cell :: gap ∧ after = gap ++ middle :: behind) ∨
      ∃ gap, before = front ++ middle :: gap ∧ behind = gap ++ cell :: after := by
  rcases List.append_eq_append_iff.mp same with ⟨gap, rfl, tail⟩ | ⟨gap, rfl, tail⟩
  · cases gap with
    | nil =>
        obtain ⟨rfl, rfl⟩ := List.cons.inj tail
        exact .inl ⟨(List.append_nil _).symm, rfl, rfl⟩
    | cons next gap =>
        obtain ⟨rfl, rfl⟩ := List.cons.inj tail
        exact .inr (.inl ⟨gap, rfl, rfl⟩)
  · cases gap with
    | nil =>
        obtain ⟨rfl, rfl⟩ := List.cons.inj tail
        exact .inl ⟨List.append_nil _, rfl, rfl⟩
    | cons next gap =>
        obtain ⟨rfl, rfl⟩ := List.cons.inj tail
        exact .inr (.inr ⟨gap, rfl, rfl⟩)

/-- **The halves.** A leaf that fits gets a cell of the tree and has cells for two halves.
The right half fits every page but page 1, and the left half fits exactly when the
cells up to the one at which half of the bytes are reached do. -/
theorem splitLeaf_halves (fits : leaf.fits pageId = true) (shaped : cell.Shaped)
    (placed : BTree.placeCell leaf cell = .ok (freed, grown))
    (several : 2 ≤ grown.cells.length) :
    ∃ left right sep, splitLeaf grown = .ok (left, right, sep) ∧
      (∀ rightPage, rightPage ≠ 1 → right.fits rightPage = true) ∧
      (left.fits pageId = true ↔ grown.HalfFits pageId) := by
  obtain ⟨before, replaced, after, cells, grownCells⟩ := placeCell_cells placed
  obtain ⟨front, middle, behind, left, right, sep, half, split, cut⟩ := splitLeaf_eq several
  have small : leafCellLen cell ≤ 4083 := by
    apply leafCellLen_le
    rw [shaped.1]
    exact inlineLenFor_le _
  have within := LeafNode.fits_iff.mp fits
  have room := within
  rw [LeafNode.used_eq, cells] at room
  simp only [List.length_append, cellsLen_append] at room
  have place := two_places (grownCells.symm.trans half.cells_eq)
  have short := half.short
  have reached := half.reached
  rw [half.cells_eq] at short reached
  simp only [cellsLen_append, cellsLen_cons] at short reached
  refine ⟨left, right, sep, split, ?_, ?_⟩
  · intro rightPage rightOther
    rw [LeafNode.fits_iff, LeafNode.used_eq, headerOffset_of_ne rightOther]
    rcases cut with ⟨_, _, rightCells⟩ | ⟨rfl, _, rightCells⟩
    · rw [rightCells]
      rcases place with ⟨rfl, rfl, rfl⟩ | ⟨gap, rfl, rfl⟩ | ⟨gap, rfl, rfl⟩
      · omega
      · simp only [List.length_append, List.length_cons, cellsLen_append, cellsLen_cons] at room
        omega
      · -- the left half has more bytes than the new cell, and it is not there
        simp only [List.length_append, List.length_cons, cellsLen_append, cellsLen_cons]
          at room reached ⊢
        omega
    · rw [rightCells]
      rcases place with ⟨rfl, rfl, rfl⟩ | ⟨gap, rfl, rfl⟩ | ⟨gap, _, absurd⟩
      · simp only [List.length_singleton, cellsLen_cons, cellsLen_nil, pageSize]
        omega
      · simp only [List.length_append, List.length_cons, List.length_nil, cellsLen_append,
          cellsLen_cons, cellsLen_nil] at room ⊢
        omega
      · simp at absurd
  · rcases cut with ⟨more, leftCells, _⟩ | ⟨rfl, leftCells, _⟩
    · have same : left = ⟨front ++ [middle]⟩ := by rw [← leftCells]
      rw [same]
      constructor
      · intro leftFits front' middle' behind' half'
        obtain ⟨rfl, rfl, rfl⟩ := half.unique half'
        exact .inr leftFits
      · intro halfFits
        exact (halfFits front middle behind half).resolve_left more
    · have leftFits : left.fits pageId = true := by
        rw [LeafNode.fits_iff, LeafNode.used_eq, leftCells]
        rcases place with ⟨rfl, rfl, rfl⟩ | ⟨gap, rfl, rfl⟩ | ⟨gap, _, absurd⟩
        · omega
        · -- the last cell has more bytes than the new one, and it is not there
          simp only [List.length_append, List.length_cons, List.length_nil, cellsLen_append,
            cellsLen_cons, cellsLen_nil] at room short ⊢
          omega
        · simp at absurd
      constructor
      · intro _ front' middle' behind' half'
        exact .inl (half.unique half').2.2.symm
      · intro _
        exact leftFits

/-- A leaf that is not on page 1 has other cells than the one that is too much. -/
theorem two_le_length_of_full (other : pageId ≠ 1) (shaped : cell.Shaped)
    (placed : BTree.placeCell leaf cell = .ok (freed, grown)) (full : grown.fits pageId = false) :
    2 ≤ grown.cells.length := by
  obtain ⟨before, replaced, after, _, grownCells⟩ := placeCell_cells placed
  have small : leafCellLen cell ≤ 4083 := by
    apply leafCellLen_le
    rw [shaped.1]
    exact inlineLenFor_le _
  by_contra few
  have one : grown.cells = [cell] := by
    have count := congrArg List.length grownCells
    simp only [List.length_append, List.length_cons] at count
    have noBefore : before = [] := List.eq_nil_of_length_eq_zero (by omega)
    have noAfter : after = [] := List.eq_nil_of_length_eq_zero (by omega)
    rw [grownCells, noBefore, noAfter, List.nil_append]
  have within : grown.fits pageId = true := by
    rw [LeafNode.fits_iff, LeafNode.used_eq, one, headerOffset_of_ne other]
    simp only [List.length_singleton, cellsLen_cons, cellsLen_nil, pageSize]
    omega
  rw [full] at within
  cases within

/-- **Splitting a leaf.** On a page other than page 1, a leaf that fits gets a cell of
the tree and does not fit any more. Both halves fit their pages exactly when the cell at
which half of the bytes are reached is the last one or fits together with those in
front of it. -/
theorem splitLeaf_fits_iff (other : pageId ≠ 1) (rightOther : rightPage ≠ 1)
    (fits : leaf.fits pageId = true) (shaped : cell.Shaped)
    (placed : BTree.placeCell leaf cell = .ok (freed, grown)) (full : grown.fits pageId = false) :
    ∃ left right sep, splitLeaf grown = .ok (left, right, sep) ∧
      (left.fits pageId = true ∧ right.fits rightPage = true ↔ grown.HalfFits pageId) := by
  obtain ⟨left, right, sep, split, rightFits, leftFits⟩ :=
    splitLeaf_halves fits shaped placed (two_le_length_of_full other shaped placed full)
  exact ⟨left, right, sep, split, by rw [← leftFits, and_iff_left (rightFits _ rightOther)]⟩

/-! ## Interior nodes -/

/-- The bytes of interior cells and their pointers. -/
def keysLen (keys : List Int64) : Nat := (keys.map fun key => InteriorNode.cellLen key + 2).sum

@[simp] theorem keysLen_nil : keysLen [] = 0 := rfl

@[simp] theorem keysLen_cons (key : Int64) (keys : List Int64) :
    keysLen (key :: keys) = InteriorNode.cellLen key + 2 + keysLen keys := by
  simp [keysLen]

@[simp] theorem keysLen_append (first second : List Int64) :
    keysLen (first ++ second) = keysLen first + keysLen second := by
  simp [keysLen]

theorem keysLen_bounds (keys : List Int64) :
    7 * keys.length ≤ keysLen keys ∧ keysLen keys ≤ 15 * keys.length := by
  induction keys with
  | nil => exact ⟨le_rfl, le_rfl⟩
  | cons key keys ih =>
      have least := Varint.one_le_len (zigzag key)
      have most := Varint.len_le_nine (zigzag key)
      rw [keysLen_cons, List.length_cons, InteriorNode.cellLen]
      omega

theorem InteriorNode.used_eq (node : InteriorNode) (pageId : PageId) :
    node.used pageId = headerOffset pageId + 12 + keysLen (node.cells.map Prod.snd) := by
  have sizes : ∀ cells : List (PageId × Int64), keysLen (cells.map Prod.snd) =
      cells.length * 2 + (cells.map fun cell => InteriorNode.cellLen cell.2).sum := by
    intro cells
    induction cells with
    | nil => rfl
    | cons cell cells ih =>
        rw [List.map_cons, keysLen_cons, ih, List.length_cons, List.map_cons, List.sum_cons]
        omega
  rw [InteriorNode.used, sizes]
  omega

theorem headerOffset_le (pageId : PageId) : headerOffset pageId ≤ 100 := by
  unfold headerOffset
  split
  · exact le_rfl
  · exact Nat.zero_le _

/-- Linking a split adds its separator to the keys. -/
theorem linkSplit_keys {node linked : InteriorNode} {pos : Option Nat} {child : PageId} {split : Split}
    (link : BTree.linkSplit node pos child split = .ok linked) :
    ∃ before after, node.cells.map Prod.snd = before ++ after ∧
      linked.cells.map Prod.snd = before ++ split.sepKey :: after := by
  cases pos with
  | none =>
      obtain rfl := Except.ok.inj link
      exact ⟨node.cells.map Prod.snd, [], (List.append_nil _).symm, by simp⟩
  | some i =>
      obtain ⟨⟨oldChild, oldKey⟩, at_i, rest⟩ := Outcome.bind_eq_ok.mp link
      obtain ⟨within, old⟩ := List.getElem?_eq_some_iff.mp (Outcome.orPanic_eq_ok.mp at_i)
      obtain rfl := Outcome.pure_eq_ok.mp rest
      have whole : node.cells = node.cells.take i ++ (oldChild, oldKey) :: node.cells.drop (i + 1) := by
        rw [← old, ← List.drop_eq_getElem_cons within, List.take_append_drop]
      refine ⟨(node.cells.take i).map Prod.snd, oldKey :: (node.cells.drop (i + 1)).map Prod.snd, ?_, ?_⟩
      · conv_lhs => rw [whole]
        simp
      · have changed : node.cells.set i (child, split.sepKey) =
            (node.cells.take i ++ [(child, split.sepKey)]) ++ node.cells.drop (i + 1) := by
          rw [List.set_eq_take_append_cons_drop, if_pos within, List.append_assoc,
            List.singleton_append]
        have place : i + 1 = (node.cells.take i ++ [(child, split.sepKey)]).length := by
          rw [List.length_append, List.length_take, Nat.min_eq_left within.le, List.length_singleton]
        have inserted := insertIdx_append (node.cells.take i ++ [(child, split.sepKey)])
          (node.cells.drop (i + 1)) (split.rightPage, oldKey)
        simp only [changed]
        rw [← place] at inserted
        rw [inserted]
        simp

/-- Both halves of an interior node fit: the node fitted before the last separator came,
and each half leaves out more than that. -/
theorem splitInterior_fits {node linked : InteriorNode} {pos : Option Nat} {child : PageId}
    {split : Split} (fits : node.fits pageId = true)
    (link : BTree.linkSplit node pos child split = .ok linked) (full : linked.fits pageId = false) :
    ∃ left right sep, splitInterior linked = .ok (left, right, sep) ∧ left.fits pageId = true ∧
      ∀ rightPage, rightPage ≠ 1 → right.fits rightPage = true := by
  obtain ⟨before, after, keys, linkedKeys⟩ := linkSplit_keys link
  have offset := headerOffset_le pageId
  have small : InteriorNode.cellLen split.sepKey ≤ 13 := by
    have most := Varint.len_le_nine (zigzag split.sepKey)
    rw [InteriorNode.cellLen]
    omega
  have room : node.used pageId ≤ pageSize := InteriorNode.fits_iff.mp fits
  have past : ¬ linked.used pageId ≤ pageSize := by
    intro within
    rw [InteriorNode.fits_iff.mpr within] at full
    cases full
  rw [InteriorNode.used_eq, keys, keysLen_append] at room
  rw [InteriorNode.used_eq, linkedKeys] at past
  have bounds := keysLen_bounds (before ++ split.sepKey :: after)
  have count : linked.cells.length = (before ++ split.sepKey :: after).length := by
    rw [← linkedKeys, List.length_map]
  simp only [keysLen_append, keysLen_cons] at past bounds
  simp only [pageSize] at room past
  let m := min (max (linked.cells.length / 2) 0) (linked.cells.length - 1)
  have many : 266 ≤ linked.cells.length := by omega
  have inside : m < linked.cells.length := by omega
  have middle : linked.cells[m]? = some linked.cells[m] := List.getElem?_eq_getElem inside
  have returned : splitInterior linked = .ok (⟨linked.cells.take m, linked.cells[m].1⟩,
      ⟨linked.cells.drop (m + 1), linked.rightChild⟩, linked.cells[m].2) := by
    simp only [splitInterior]
    rw [if_neg (by omega)]
    simp only [m] at middle
    simp only [middle, Outcome.orPanic, Outcome.ok_bind]
    rfl
  -- the cells of the halves
  have cut := congrArg (fun cells => keysLen (cells.map Prod.snd)) (List.take_append_drop m linked.cells)
  have cut' := congrArg (fun cells => keysLen (cells.map Prod.snd))
    (List.take_append_drop (m + 1) linked.cells)
  have behind := (keysLen_bounds ((linked.cells.drop m).map Prod.snd)).1
  have inFront := (keysLen_bounds ((linked.cells.take (m + 1)).map Prod.snd)).1
  simp only [List.map_append, keysLen_append, linkedKeys, keysLen_cons] at cut cut'
  simp only [List.length_map, List.length_drop, List.length_take] at behind inFront
  refine ⟨_, _, _, returned, ?_, ?_⟩
  · rw [InteriorNode.fits_iff, InteriorNode.used_eq]
    simp only [pageSize]
    omega
  · intro rightPage rightOther
    rw [InteriorNode.fits_iff, InteriorNode.used_eq, headerOffset_of_ne rightOther]
    simp only [pageSize]
    omega

/-! ## A large cell in the middle -/

/-- A cell with a record of zeros. -/
def zeros (rowid : Int64) (n : Nat) : LeafCell := ⟨rowid, UInt64.ofNat n, 0, List.replicate n 0⟩

/-- Two rows of 2000 bytes, and one of 4000 bytes between them: the left half holds the
first and the large one, and cannot be written. -/
theorem splitLeaf_overfull : ∃ (grown left right : LeafNode) (sep : Int64),
    (⟨[zeros 1 2000, zeros 3 2000]⟩ : LeafNode).fits 2 = true ∧ (zeros 2 4000).Shaped ∧
    BTree.placeCell ⟨[zeros 1 2000, zeros 3 2000]⟩ (zeros 2 4000) = .ok (0, grown) ∧
    grown.fits 2 = false ∧ splitLeaf grown = .ok (left, right, sep) ∧ left.fits 2 = false ∧
    (Node.leaf left).serializeInto (RawPage.new 2) = .panic "attempt to subtract with overflow" := by
  refine ⟨⟨[zeros 1 2000, zeros 2 4000, zeros 3 2000]⟩, ⟨[zeros 1 2000, zeros 2 4000]⟩,
    ⟨[zeros 3 2000]⟩, 2, ?_⟩
  refine ⟨by decide +kernel, ⟨by decide +kernel, by decide +kernel⟩, by decide +kernel,
    by decide +kernel, by decide +kernel, by decide +kernel, by decide +kernel⟩

/-- Three rows of 1500 bytes: the half is reached at the second. -/
theorem splitLeaf_fits_iff_equal : ∃ (left right : LeafNode) (sep : Int64),
    splitLeaf ⟨[zeros 1 1500, zeros 2 1500, zeros 3 1500]⟩ = .ok (left, right, sep) ∧
    (left.fits 2 = true ∧ right.fits 3 = true ↔
      (⟨[zeros 1 1500, zeros 2 1500, zeros 3 1500]⟩ : LeafNode).HalfFits 2) :=
  @splitLeaf_fits_iff ⟨[zeros 1 1500, zeros 2 1500]⟩ _ (zeros 3 1500) 0 2 3 (by decide) (by decide)
    (by decide +kernel) ⟨by decide +kernel, by decide +kernel⟩ (by decide +kernel) (by decide +kernel)

end Squrust.Core
