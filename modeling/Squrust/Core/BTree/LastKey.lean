import Squrust.Core.BTree.RowMap

/-!
# The last key

`last_key` looks at the rightmost leaf only. Deletes leave leaves empty where they
are, so the rightmost leaf can be empty while rows are left of it. What is found is
the greatest rowid exactly when the rightmost leaf has a cell or the tree has no rows
(`lastKey_eq_iff`).
-/

set_option autoImplicit false

namespace Squrust.Core

open Squrust.Foundation

namespace BTree

/-- The leaf at the right edge of a tree. -/
inductive RightmostLeaf (view : View PageId PageData) : PageId → LeafNode → Prop
  | leaf {id : PageId} {leaf : LeafNode} (holds : Holds view id (.leaf leaf)) : RightmostLeaf view id leaf
  | interior {id : PageId} {node : InteriorNode} {leaf : LeafNode}
      (holds : Holds view id (.interior node)) (right : RightmostLeaf view node.rightChild leaf) :
      RightmostLeaf view id leaf

section

variable {σ : Type} [PageSource σ] [MapSource σ]

/-- The rightmost leaf is the last part of the tree: its last cell, if it has one, has
the greatest rowid. -/
theorem rightmost_subtree {seen : View PageId PageData} {depth : Nat} {low high : Bound Int64}
    {id : PageId} {entries : Rows} {pages : List PageId}
    (subtree : Subtree seen depth low high id entries pages) :
    ∃ leaf, RightmostLeaf seen id leaf ∧
      (leaf.cells ≠ [] → entries.getLast?.map Prod.fst = leaf.cells.getLast?.map LeafCell.rowid) ∧
      ∀ store : σ, view store = seen →
        Reads (fun fuel => lastKey fuel id) store (leaf.cells.getLast?.map LeafCell.rowid) := by
  induction depth generalizing low high id entries pages with
  | zero =>
      obtain ⟨node, owned, holds, body, rfl⟩ := subtree
      obtain ⟨l, rfl⟩ := body.leaf_of_zero
      obtain ⟨_, _, _, slots, cells, rfl, rfl, each⟩ := body
      refine ⟨l, .leaf holds, ?_, ?_⟩
      · intro _
        rw [cells, List.getLast?_map, List.getLast?_map, Option.map_map, Option.map_map]
        rfl
      · rintro store rfl
        exact .of_succ (.getNode_bind holds fun read same => .pure _)
  | succ depth ih =>
      obtain ⟨node, owned, holds, body, rfl⟩ := subtree
      obtain ⟨n, rfl⟩ := body.interior_of_succ
      obtain ⟨middle, before, behind, nodes, nodes', spans, right, rfl, rfl⟩ :=
        body_interior.mp body
      obtain ⟨leaf, rightmost, greatest, reads⟩ := ih right
      refine ⟨leaf, .interior holds rightmost, ?_, ?_⟩
      · intro some
        have found := greatest some
        rw [← found, List.getLast?_append]
        cases end_eq : behind.getLast? with
        | none =>
            rw [end_eq, Option.map_none, eq_comm, Option.map_eq_none_iff,
              List.getLast?_eq_none_iff] at found
            exact absurd found some
        | some entry => rfl
      · rintro store rfl
        exact .of_succ (.getNode_bind holds fun read same => reads read same)

end

section

variable {σ : Type} [PageSink σ] [MapSink σ] {sink : σ} {used root : PageId}
  {created after : Audited σ} {steps : List (Call × Nat)} {replies : List Reply}

/-- **The last key.** On a tree that was created and changed by calls that returned and
wrote only nodes that fit, `last_key` and a full scan both return. They agree on the
greatest rowid exactly when the rightmost leaf has a cell or there are no rows. -/
theorem lastKey_eq_iff (inUse : view sink used ≠ .free)
    (creation : create (⟨sink, true⟩ : Audited σ) = .ok root created)
    (run : calls root steps created = .ok replies after) (fit : after.allFit = true) :
    ∃ (last : Option Int64) (rows : List (Int64 × Bytes)) (leaf : LeafNode),
      Reads (fun fuel => lastKey fuel root) after.sink last ∧
      Reads (fun fuel => do BTreeCursor.collect fuel (← BTreeCursor.seekFirst fuel root)) after.sink
        rows ∧ Ascending rows ∧
      RightmostLeaf (view after.sink) root leaf ∧
      (last = rows.getLast?.map Prod.fst ↔ leaf.cells ≠ [] ∨ rows = []) := by
  have inUse' : view (⟨sink, true⟩ : Audited σ) used ≠ .free := inUse
  have empty := create_ok inUse' creation (tracked_calls _ _ run fit)
  obtain ⟨entries, pages, tree, _⟩ := calls_refine empty run fit
  have tree' : Tree (view after.sink) root entries pages := tree
  have scan := BTreeCursor.collect_seek tree' Int64.minValue
  have all : entries.filter (fun entry => decide (Int64.minValue ≤ entry.1)) = entries := by
    rw [List.filter_eq_self]
    exact fun entry _ => decide_eq_true (Int64.minValue_le entry.1)
  rw [all] at scan
  obtain ⟨depth, subtree, _⟩ := tree'
  obtain ⟨leaf, rightmost, greatest, reads⟩ := @rightmost_subtree σ _ _ _ _ _ _ _ _ _ subtree
  refine ⟨_, _, leaf, reads after.sink rfl, scan, ?_, rightmost, ?_⟩
  · rw [Ascending, List.pairwise_map]
    exact tree.ascending
  · have lastRow : (entries.map fun entry => (entry.1, entry.2.val)).getLast?.map Prod.fst =
        entries.getLast?.map Prod.fst := by
      rw [List.getLast?_map, Option.map_map]
      rfl
    rw [lastRow]
    constructor
    · intro same
      by_cases none : leaf.cells = []
      · right
        rw [none, List.getLast?_nil, Option.map_none, eq_comm, Option.map_eq_none_iff,
          List.getLast?_eq_none_iff] at same
        rw [same, List.map_nil]
      · exact .inl none
    · intro held
      by_cases none : leaf.cells = []
      · have noRows : entries = [] := List.map_eq_nil_iff.mp (held.resolve_left (not_not.mpr none))
        rw [none, noRows]
        rfl
      · exact (greatest none).symm

end

/-! ## An empty leaf at the right edge -/

/-- A record of which a page holds one. -/
def pageOfOne : Record := ⟨List.replicate 2040 0, by rw [List.length_replicate]; decide⟩

/-- Two rows on a leaf each, and the second deleted again. -/
def emptyRight : List (Call × Nat) :=
  [(.insert 1 pageOfOne, 4), (.insert 2 pageOfOne, 4), (.delete 2, 4)]

theorem emptyRight_return : Exec.leaves create (⟨MemStore.new, true⟩ : Audited MemStore)
    (fun root created => Exec.leaves (calls root emptyRight) created fun _ after =>
      after.allFit && Exec.leaves (lastKey 4 root) after.sink (fun last _ => last == none)) =
    true := by
  decide +kernel

/-- The calls return, `last_key` finds nothing, and the scan yields the first row. -/
theorem lastKey_none_with_row : ∃ (root : PageId) (created after : Audited MemStore)
    (replies : List Reply), create (⟨MemStore.new, true⟩ : Audited MemStore) = .ok root created ∧
      calls root emptyRight created = .ok replies after ∧ after.allFit = true ∧
      (∃ reached, lastKey 4 root after.sink = .ok none reached) ∧
      Reads (fun fuel => do BTreeCursor.collect fuel (← BTreeCursor.seekFirst fuel root)) after.sink
        [(1, pageOfOne.val)] := by
  obtain ⟨root, created, creation, rest⟩ := Exec.exists_of_leaves emptyRight_return
  obtain ⟨replies, after, run, rest⟩ := Exec.exists_of_leaves rest
  obtain ⟨fit, rest⟩ := Bool.and_eq_true_iff.mp rest
  obtain ⟨last, reached, found, none⟩ := Exec.exists_of_leaves rest
  obtain rfl := beq_iff_eq.mp none
  obtain ⟨_, _, rows, scan, ascending, held⟩ := tree_is_map MemStore.new_inUse creation run fit
  refine ⟨root, created, after, replies, creation, run, fit, ⟨reached, found⟩, ?_⟩
  have only : rows = [(1, pageOfOne.val)] := by
    refine ascending_ext ascending (List.pairwise_singleton _ _) fun rowid bytes => ?_
    rw [held, List.mem_singleton, Prod.mk.injEq]
    by_cases one : rowid = 1
    · simp [emptyRight, replay, Call.update, one, eq_comm]
    · by_cases two : rowid = 2
      · simp [emptyRight, replay, Call.update, noRows, two]
      · simp [emptyRight, replay, Call.update, noRows, one, two]
  rwa [only] at scan

/-- The same tree, as a case of the general result. -/
theorem lastKey_eq_iff_twoRows : ∃ (root : PageId) (after : Audited MemStore)
    (last : Option Int64) (rows : List (Int64 × Bytes)) (leaf : LeafNode),
      RightmostLeaf (view after.sink) root leaf ∧
      (last = rows.getLast?.map Prod.fst ↔ leaf.cells ≠ [] ∨ rows = []) := by
  obtain ⟨root, created, creation, rest⟩ := Exec.exists_of_leaves emptyRight_return
  obtain ⟨replies, after, run, rest⟩ := Exec.exists_of_leaves rest
  obtain ⟨last, rows, leaf, _, _, _, rightmost, agree⟩ :=
    lastKey_eq_iff MemStore.new_inUse creation run (Bool.and_eq_true_iff.mp rest).1
  exact ⟨root, after, last, rows, leaf, rightmost, agree⟩

end BTree

end Squrust.Core
