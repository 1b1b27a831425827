import Squrust.Core.BTree.RowMap
import Mathlib.Data.List.Forall2

/-!
# Walking a tree

From a page on down, page by page: the rowids of the leaves from the left, all keys, the
nodes, the cells. On a tree the walk finds what a b-tree promises: all leaves at one depth
(`Subtree.level`), the rows in order (`Subtree.rowidsIn`), separators that separate
(`Subtree.separated`), and no page but the nodes and the overflow chains of the live cells
(`Subtree.chains`).
-/

set_option autoImplicit false

namespace Squrust.Core

open Squrust.Foundation

/-- The node on a page. -/
def nodeAt (view : View PageId PageData) (id : PageId) : Option Node :=
  match view id with
  | .holds data => (Node.parse ⟨id, data⟩).toOption
  | _ => none

/-- All leaves below a page are that many levels below it. -/
def Level (view : View PageId PageData) : Nat → PageId → Prop
  | 0, id => ∃ leaf, nodeAt view id = some (.leaf leaf)
  | depth + 1, id => ∃ node, nodeAt view id = some (.interior node) ∧
      ∀ child ∈ node.children, Level view depth child

/-- The cells of the leaves below a page, from the left. -/
def cellsIn (view : View PageId PageData) : Nat → PageId → List LeafCell
  | 0, id => match nodeAt view id with
      | some (.leaf leaf) => leaf.cells
      | _ => []
  | depth + 1, id => match nodeAt view id with
      | some (.interior node) => node.children.flatMap (cellsIn view depth)
      | _ => []

/-- The rowids of the leaves below a page, from the left. -/
def rowidsIn (view : View PageId PageData) (depth : Nat) (id : PageId) : List Int64 :=
  (cellsIn view depth id).map (·.rowid)

/-- The rowids and the separators from a page on down. -/
def keysIn (view : View PageId PageData) : Nat → PageId → List Int64
  | 0, id => rowidsIn view 0 id
  | depth + 1, id => match nodeAt view id with
      | some (.interior node) =>
          node.cells.map Prod.snd ++ node.children.flatMap (keysIn view depth)
      | _ => []

/-- The pages of the nodes from a page on down. -/
def nodesIn (view : View PageId PageData) : Nat → PageId → List PageId
  | 0, id => [id]
  | depth + 1, id => match nodeAt view id with
      | some (.interior node) => id :: node.children.flatMap (nodesIn view depth)
      | _ => [id]

/-- From a page on down, every separator is at least every key to its left and less than
every key to its right. -/
def Separated (view : View PageId PageData) : Nat → PageId → Prop
  | 0, _ => True
  | depth + 1, id => ∃ node, nodeAt view id = some (.interior node) ∧
      (∀ child ∈ node.children, Separated view depth child) ∧
      ∀ before child separator after, node.cells = before ++ (child, separator) :: after →
        (∀ left ∈ before.map Prod.fst ++ [child], ∀ key ∈ keysIn view depth left,
          key ≤ separator) ∧
        ∀ right ∈ after.map Prod.fst ++ [node.rightChild], ∀ key ∈ keysIn view depth right,
          separator < key

/-! ## What the walk finds -/

section Walks

variable {view : View PageId PageData} {depth : Nat} {low high : Bound Int64} {id : PageId}
  {entries : Rows} {pages : List PageId}

theorem Holds.nodeAt {node : Node} (holds : Holds view id node) :
    Squrust.Core.nodeAt view id = some node := by
  obtain ⟨data, held, parsed, _⟩ := holds
  simp [Squrust.Core.nodeAt, held, parsed, Except.toOption]

theorem cellsIn_leaf {leaf : LeafNode} (found : nodeAt view id = some (.leaf leaf)) :
    cellsIn view 0 id = leaf.cells := by
  simp only [cellsIn, found]

theorem cellsIn_interior {node : InteriorNode} (found : nodeAt view id = some (.interior node)) :
    cellsIn view (depth + 1) id = node.children.flatMap (cellsIn view depth) := by
  simp only [cellsIn, found]

theorem keysIn_interior {node : InteriorNode} (found : nodeAt view id = some (.interior node)) :
    keysIn view (depth + 1) id =
      node.cells.map Prod.snd ++ node.children.flatMap (keysIn view depth) := by
  simp only [keysIn, found]

theorem nodesIn_interior {node : InteriorNode} (found : nodeAt view id = some (.interior node)) :
    nodesIn view (depth + 1) id = id :: node.children.flatMap (nodesIn view depth) := by
  simp only [nodesIn, found]

theorem rowidsIn_interior {node : InteriorNode} (found : nodeAt view id = some (.interior node)) :
    rowidsIn view (depth + 1) id = node.children.flatMap (rowidsIn view depth) := by
  rw [rowidsIn, cellsIn_interior found, List.map_flatMap]
  rfl

/-- The leaf of a subtree of depth 0. -/
theorem Subtree.leaf (subtree : Subtree view 0 low high id entries pages) :
    ∃ leaf owned, nodeAt view id = some (.leaf leaf) ∧
      (∀ entry ∈ entries, InRange low high entry.1) ∧ LeafHolds view leaf.cells entries owned ∧
      pages = id :: owned := by
  obtain ⟨node, owned, holds, body, rfl⟩ := subtree
  obtain ⟨leaf, rfl⟩ := body.leaf_of_zero
  obtain ⟨_, ranges, _, cells⟩ := body
  exact ⟨leaf, owned, holds.nodeAt, ranges, cells, rfl⟩

/-- The interior node of a deeper subtree. -/
theorem Subtree.interior (subtree : Subtree view (depth + 1) low high id entries pages) :
    ∃ node middle before last owned owned', nodeAt view id = some (.interior node) ∧
      Spans (Subtree view depth) low node.cells middle before owned ∧
      Subtree view depth middle high node.rightChild last owned' ∧ entries = before ++ last ∧
      pages = id :: (owned ++ owned') := by
  obtain ⟨node, owned, holds, body, rfl⟩ := subtree
  obtain ⟨node, rfl⟩ := body.interior_of_succ
  obtain ⟨middle, before, last, owned, owned', spans, right, rfl, rfl⟩ := body_interior.mp body
  exact ⟨node, middle, before, last, owned, owned', holds.nodeAt, spans, right, rfl, rfl⟩

/-- A child of a node is a subtree of its own, within the range of the node. -/
theorem child_subtree {node : InteriorNode} {middle : Bound Int64} {before last : Rows}
    {owned owned' : List PageId} {child : PageId}
    (spans : Spans (Subtree view depth) low node.cells middle before owned)
    (right : Subtree view depth middle high node.rightChild last owned')
    (member : child ∈ node.children) :
    ∃ above upTo held pages, low ≤ above ∧ upTo ≤ high ∧
      Subtree view depth above upTo child held pages := by
  have ranged := Subtree.ranged view depth
  rcases List.mem_append.mp member with among | here
  · obtain ⟨cell, inCells, rfl⟩ := List.mem_map.mp among
    obtain ⟨above, held, owned, lower, upper, found⟩ := spans.child ranged inCells
    exact ⟨above, _, held, owned, lower, upper.trans (ranged.lt right).le, found⟩
  · obtain rfl := List.mem_singleton.mp here
    exact ⟨middle, high, last, owned', spans.le ranged, le_rfl, right⟩

/-- All leaves are at one depth. -/
theorem Subtree.level (subtree : Subtree view depth low high id entries pages) :
    Level view depth id := by
  induction depth generalizing low high id entries pages with
  | zero =>
      obtain ⟨leaf, _, found, _⟩ := subtree.leaf
      exact ⟨leaf, found⟩
  | succ depth ih =>
      obtain ⟨node, _, _, _, _, _, found, spans, right, _⟩ := subtree.interior
      refine ⟨node, found, fun child member => ?_⟩
      obtain ⟨_, _, _, _, _, _, below⟩ := child_subtree spans right member
      exact ih below

/-- The leaves hold the rows of the tree, in their order. -/
theorem Subtree.rowidsIn_eq (subtree : Subtree view depth low high id entries pages) :
    rowidsIn view depth id = entries.map Prod.fst := by
  induction depth generalizing low high id entries pages with
  | zero =>
      obtain ⟨leaf, _, found, _, ⟨slots, cells, rfl, _⟩, _⟩ := subtree.leaf
      rw [rowidsIn, cellsIn_leaf found, cells, List.map_map, List.map_map]
      rfl
  | succ depth ih =>
      obtain ⟨node, _, _, _, _, _, found, spans, right, rfl, _⟩ := subtree.interior
      rw [rowidsIn_interior found, InteriorNode.children, List.flatMap_append, List.flatMap_singleton,
        spans.flatMap_eq ih, ih right, List.map_append]

/-- All keys of a subtree are of its range. -/
theorem Subtree.keys_inRange (subtree : Subtree view depth low high id entries pages) :
    ∀ key ∈ keysIn view depth id, InRange low high key := by
  induction depth generalizing low high id entries pages with
  | zero =>
      obtain ⟨_, _, _, ranges, _, _⟩ := subtree.leaf
      intro key member
      rw [keysIn, subtree.rowidsIn_eq] at member
      obtain ⟨entry, inEntries, rfl⟩ := List.mem_map.mp member
      exact ranges entry inEntries
  | succ depth ih =>
      obtain ⟨node, _, _, _, _, _, found, spans, right, _⟩ := subtree.interior
      have ranged := Subtree.ranged view depth
      intro key member
      rw [keysIn_interior found] at member
      rcases List.mem_append.mp member with separator | below
      · obtain ⟨cell, inCells, rfl⟩ := List.mem_map.mp separator
        obtain ⟨_, _, _, lower, upper, found⟩ := spans.child ranged inCells
        exact ⟨lower.trans_lt (ranged.lt found), upper.trans (ranged.lt right).le⟩
      · obtain ⟨child, isChild, inChild⟩ := List.mem_flatMap.mp below
        obtain ⟨_, _, _, _, lower, upper, found⟩ := child_subtree spans right isChild
        have range := ih found key inChild
        exact ⟨lower.trans_lt range.1, range.2.trans upper⟩

/-- Every separator separates. -/
theorem Subtree.separated (subtree : Subtree view depth low high id entries pages) :
    Separated view depth id := by
  induction depth generalizing low high id entries pages with
  | zero => trivial
  | succ depth ih =>
      obtain ⟨node, _, _, _, _, _, found, spans, right, _⟩ := subtree.interior
      have ranged := Subtree.ranged view depth
      refine ⟨node, found, fun child member => ?_, ?_⟩
      · obtain ⟨_, _, _, _, _, _, below⟩ := child_subtree spans right member
        exact ih below
      · intro before child separator after cut
        rw [cut] at spans
        obtain ⟨from_, _, _, _, _, earlier, fromHere, _, _⟩ := spans.split
        cases fromHere with
        | cons here later =>
          refine ⟨fun left member key inLeft => ?_, fun right' member key inRight => ?_⟩
          · rw [← Bound.key_le_key]
            rcases List.mem_append.mp member with among | same
            · obtain ⟨cell, inCells, rfl⟩ := List.mem_map.mp among
              obtain ⟨_, _, _, _, upper, found⟩ := earlier.child ranged inCells
              exact ((found.keys_inRange key inLeft).2.trans upper).trans (ranged.lt here).le
            · obtain rfl := List.mem_singleton.mp same
              exact (here.keys_inRange key inLeft).2
          · rw [← Bound.key_lt_key]
            rcases List.mem_append.mp member with among | same
            · obtain ⟨cell, inCells, rfl⟩ := List.mem_map.mp among
              obtain ⟨_, _, _, lower, _, found⟩ := later.child ranged inCells
              exact lower.trans_lt (found.keys_inRange key inRight).1
            · obtain rfl := List.mem_singleton.mp same
              exact (later.le ranged).trans_lt (right.keys_inRange key inRight).1

/-- The cells, each with the pages of its overflow chain. -/
def Chained (view : View PageId PageData) (cell : LeafCell) (ids : List PageId) : Prop :=
  ∃ tail, OverflowChain view cell.overflow tail ids

theorem perm_interleave {α : Type} (a b c d : List α) :
    (a ++ b ++ (c ++ d)).Perm (a ++ c ++ (b ++ d)) := by
  rw [List.append_assoc, List.append_assoc]
  exact (List.perm_append_comm_assoc b c d).append_left a

/-- What owns a subtree's pages: its nodes, and the chains of its cells. -/
theorem Subtree.chains (subtree : Subtree view depth low high id entries pages) :
    ∃ chains, List.Forall₂ (Chained view) (cellsIn view depth id) chains ∧
      (nodesIn view depth id ++ chains.flatten).Perm pages := by
  induction depth generalizing low high id entries pages with
  | zero =>
      obtain ⟨leaf, _, found, _, ⟨slots, cells, _, rfl, stored⟩, rfl⟩ := subtree.leaf
      refine ⟨slots.map LeafSlot.chain, ?_, ?_⟩
      · rw [cellsIn_leaf found, cells, List.forall₂_map_left_iff, List.forall₂_map_right_iff,
          List.forall₂_same]
        exact fun slot member => ⟨_, (stored slot member).chain⟩
      · rw [nodesIn, List.flatMap_def]
        exact .refl _
  | succ depth ih =>
      obtain ⟨node, _, _, _, _, _, found, spans, right, _, rfl⟩ := subtree.interior
      have left : ∀ {low high cells entries pages}, Spans (Subtree view depth) low cells high
          entries pages → ∃ chains, List.Forall₂ (Chained view)
            ((cells.map Prod.fst).flatMap (cellsIn view depth)) chains ∧
          ((cells.map Prod.fst).flatMap (nodesIn view depth) ++ chains.flatten).Perm pages := by
        intro low high cells entries pages spans
        induction spans with
        | nil low => exact ⟨[], .nil, .refl _⟩
        | cons first rest earlier =>
            obtain ⟨chains, each, owned⟩ := ih first
            obtain ⟨chains', each', owned'⟩ := earlier
            refine ⟨chains ++ chains', List.rel_append each each', ?_⟩
            rw [List.flatten_append]
            exact (perm_interleave _ _ _ _).trans (owned.append owned')
      obtain ⟨chains, each, owned⟩ := left spans
      obtain ⟨chains', each', owned'⟩ := ih right
      refine ⟨chains ++ chains', ?_, ?_⟩
      · rw [cellsIn_interior found, InteriorNode.children, List.flatMap_append,
          List.flatMap_singleton]
        exact List.rel_append each each'
      · rw [nodesIn_interior found, InteriorNode.children, List.flatMap_append, List.flatMap_singleton,
          List.flatten_append, List.cons_append]
        exact ((perm_interleave _ _ _ _).trans (owned.append owned')).cons id

end Walks

end Squrust.Core
