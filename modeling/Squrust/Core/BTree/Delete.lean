import Squrust.Core.BTree.Insert

/-!
# Deleting a record

A delete takes the rowid out and changes nothing else of what the tree holds; it
answers whether there was a record (`delete_ok`). The leaf it was on may become
empty: no node is merged or removed, so the separators stay as they are.
-/

set_option autoImplicit false

namespace Squrust.Core

open Squrust.Foundation

namespace BTree

variable {σ : Type} [PageSink σ] [MapSink σ] {store after : Audited σ}

/-- The cell that leaves a leaf, and the rest. -/
theorem removeCell_ok {pages : View PageId PageData} {l : LeafNode} {entries : Rows}
    {owned : List PageId} {rowid : Int64} {i : Nat} (holds : LeafHolds pages l.cells entries owned)
    (ascending : Ascending entries) (search : l.search rowid = .ok i) :
    ∃ (slot : LeafSlot) (owned' : List PageId), l.cells[i]? = some slot.cell ∧ slot.Stored pages ∧ slot.entry ∈ entries ∧
      slot.cell.rowid = rowid ∧
      LeafHolds pages (l.cells.eraseIdx i) (Entries.drop rowid entries) owned' ∧
      (slot.chain ++ owned').Perm owned := by
  obtain ⟨slots, cells, rfl, rfl, each⟩ := holds
  rcases LeafNode.search_cases rowid cells ascending with
    ⟨before, slot, after, rfl, rfl, below, above, found⟩ | ⟨before, after, rfl, below, above, found⟩
  · rw [found] at search
    obtain rfl := Except.ok.inj search
    have whole : l.cells = before.map LeafSlot.cell ++ slot.cell :: after.map LeafSlot.cell := by
      rw [cells, List.map_append, List.map_cons]
    have place : before.length = (before.map LeafSlot.cell).length := by simp
    refine ⟨slot, (before ++ after).flatMap LeafSlot.chain, ?_, each slot (by simp), by simp, rfl,
      ⟨before ++ after, ?_, ?_, rfl, ?_⟩, ?_⟩
    · rw [whole, List.getElem?_append_right (by simp)]
      simp
    · rw [whole, place, List.eraseIdx_append_of_length_le le_rfl, Nat.sub_self,
        List.eraseIdx_cons_zero, List.map_append]
    · simp only [List.map_append, List.map_cons]
      rw [show slot.entry = (slot.cell.rowid, slot.record) from rfl,
        Entries.drop_hit (by simpa [LeafSlot.entry] using below)
          (by simpa [LeafSlot.entry] using above)]
    · intro other member
      rcases List.mem_append.mp member with inBefore | inAfter
      · exact each other (by simp [inBefore])
      · exact each other (by simp [inAfter])
    · rw [List.perm_iff_count]
      intro page
      simp only [List.flatMap_append, List.flatMap_cons, List.count_append]
      omega
  · rw [found] at search
    cases search

omit [PageSink σ] [MapSink σ] in
/-- A search that finds no cell: there is no record. -/
theorem absent_of_search {pages : View PageId PageData} {l : LeafNode} {entries : Rows}
    {owned : List PageId} {rowid : Int64} {i : Nat} (holds : LeafHolds pages l.cells entries owned)
    (ascending : Ascending entries) (search : l.search rowid = .error i) :
    ∀ entry ∈ entries, entry.1 ≠ rowid := by
  obtain ⟨slots, cells, rfl, rfl, each⟩ := holds
  rcases LeafNode.search_cases rowid cells ascending with
    ⟨before, slot, after, rfl, rfl, below, above, found⟩ | ⟨before, after, rfl, below, above, found⟩
  · rw [found] at search
    cases search
  · intro entry member
    obtain ⟨slot, inSlots, rfl⟩ := List.mem_map.mp member
    rcases List.mem_append.mp inSlots with inBefore | inAfter
    · exact (below slot inBefore).ne
    · exact (above slot inAfter).ne'

omit [PageSink σ] [MapSink σ] in
theorem drop_of_absent {rowid : Int64} {entries : Rows}
    (absent : ∀ entry ∈ entries, entry.1 ≠ rowid) : Entries.drop rowid entries = entries := by
  rw [Entries.drop, List.filter_eq_self]
  exact fun entry member => decide_eq_true (absent entry member)

/-- The step at a leaf that has the cell. -/
theorem deleteLeaf_ok {fuel : Nat} {low high : Bound Int64} {id : PageId} {l : LeafNode}
    {entries : Rows} {owned : List PageId} {rowid : Int64} {i : Nat} {removed : LeafCell}
    {wrote : Audited σ}
    (holds : Holds (view store) id (.leaf l))
    (body : Body (view store) 0 low high (.leaf l) entries owned) (distinct : (id :: owned).Nodup)
    (search : l.search rowid = .ok i) (atIndex : l.cells[i]? = some removed)
    (write : writeNode id (.leaf ⟨l.cells.eraseIdx i⟩) store = .ok () wrote)
    (release : releaseChain fuel removed.overflow wrote = .ok () after) (fit : after.allFit = true) :
    (∃ entry ∈ entries, entry.1 = rowid) ∧ ∃ pages,
      Subtree (view after) 0 low high id (Entries.drop rowid entries) pages ∧ pages.Nodup ∧
      Replaces (view store) (view after) (id :: owned) pages := by
  have subtree : Subtree (view store) 0 low high id entries (id :: owned) :=
    ⟨_, owned, holds, body, rfl⟩
  obtain ⟨less, ranges, ascending, cells⟩ := body_leaf.mp body
  obtain ⟨slot, owned', atIndex', stored, member, same, cells', moved⟩ :=
    removeCell_ok cells ascending search
  rw [atIndex', Option.some.injEq] at atIndex
  subst atIndex
  have body' : Body (view store) 0 low high (.leaf ⟨l.cells.eraseIdx i⟩)
      (Entries.drop rowid entries) owned' :=
    ⟨less, fun entry inDrop => ranges entry (Entries.mem_drop.mp inDrop).1,
      Entries.ascending_drop ascending, cells'⟩
  have shuffled : (slot.chain ++ id :: owned').Perm (id :: owned) :=
    List.perm_middle.trans (moved.cons id)
  obtain ⟨nodupFreed, nodupKept, disjoint⟩ :=
    List.nodup_append.mp (shuffled.nodup_iff.mpr distinct)
  have apart : ∀ page ∈ slot.chain, page ∉ id :: owned' := fun page inChain inKept =>
    disjoint page inChain page inKept rfl
  have live : ∀ page ∈ slot.chain ++ id :: owned', view store page ≠ .free := fun page inAll =>
    subtree.live page (shuffled.mem_iff.mp inAll)
  have liveFreed : ∀ page ∈ slot.chain, view store page ≠ .free := fun page inChain =>
    live page (List.mem_append_left _ inChain)
  obtain ⟨subtree', replaces⟩ := writeNode_subtree body' (List.nodup_cons.mp nodupKept).1
    holds.live write (tracked_releaseChain _ _ release fit)
  have rewrote := replaces.within (by simp) fun page inKept =>
    live page (List.mem_append_right _ inKept)
  have freeing := releaseChain_ok
    (stored.chain.congr fun page inChain =>
      (rewrote.kept (liveFreed page inChain) (apart page inChain)).2) nodupFreed release
  have notFreed : ∀ page ∈ id :: owned', page ∉ slot.chain := fun page inKept inFreed =>
    apart page inFreed inKept
  refine ⟨⟨slot.entry, member, same⟩, _, subtree'.congr fun page inKept =>
    freeing.others page (notFreed page inKept) (by simp), nodupKept, ?_⟩
  have whole := (rewrote.frame liveFreed apart).trans
    (freeing.frame_right rewrote.held notFreed)
  exact whole.perm shuffled.symm (.refl _)

/-- The descent deletes the record. -/
theorem delete_subtree {fuel depth : Nat} {low high : Bound Int64} {id : PageId} {entries : Rows}
    {pages : List PageId} {rowid : Int64} {found : Bool}
    (subtree : Subtree (view store) depth low high id entries pages) (distinct : pages.Nodup)
    (inside : InRange low high rowid)
    (run : delete fuel id rowid store = .ok found after) (fit : after.allFit = true) :
    (found = true ↔ ∃ entry ∈ entries, entry.1 = rowid) ∧ ∃ pages',
      Subtree (view after) depth low high id (Entries.drop rowid entries) pages' ∧ pages'.Nodup ∧
      Replaces (view store) (view after) pages pages' := by
  induction fuel generalizing depth low high id entries pages store found after with
  | zero => simp [delete] at run
  | succ fuel ih =>
      have live := subtree.live
      obtain ⟨node, owned, holds, body, rfl⟩ := subtree
      rw [delete, Exec.bind_eq_ok] at run
      obtain ⟨got, read, get, run⟩ := run
      obtain ⟨rfl, same⟩ := getNode_ok holds get
      rw [← same] at holds body live ⊢
      cases depth with
      | zero =>
          obtain ⟨l, rfl⟩ := body.leaf_of_zero
          cases search : l.search rowid with
          | ok i =>
            simp only [search, Exec.bind_eq_ok, Exec.lift_eq_ok, Outcome.orPanic_eq_ok,
              Exec.pure_eq_ok] at run
            obtain ⟨removed, _, ⟨atIndex, rfl⟩, _, wrote, write, _, released, release, rfl, rfl⟩ :=
              run
            obtain ⟨present, rest⟩ :=
              deleteLeaf_ok holds body distinct search atIndex write release fit
            exact ⟨by simpa using present, rest⟩
          | error i =>
            simp only [search, Exec.pure_eq_ok] at run
            obtain ⟨rfl, rfl⟩ := run
            obtain ⟨_, _, ascending, cells⟩ := body_leaf.mp body
            have absent := absent_of_search cells ascending search
            have none : ¬ ∃ entry ∈ entries, entry.1 = rowid := by
              rintro ⟨entry, member, isRowid⟩
              exact absent entry member isRowid
            refine ⟨iff_of_false (by simp) none, _, ?_, distinct, .refl live⟩
            rw [drop_of_absent absent]
            exact ⟨_, owned, holds, body, rfl⟩
      | succ depth =>
          obtain ⟨n, rfl⟩ := body.interior_of_succ
          obtain ⟨pos, child, start, stop, before, held, rowsAfter, pagesBefore, pagesChild,
            pagesAfter, descent, rfl, rfl⟩ := body.descent inside
          simp only [descent.childFor] at run
          have shuffled : (id :: (pagesBefore ++ pagesAfter) ++ pagesChild).Perm
              (id :: (pagesBefore ++ pagesChild ++ pagesAfter)) := by
            rw [List.perm_iff_count]
            intro page
            simp only [List.count_append, List.count_cons]
            omega
          obtain ⟨nodupRest, nodupChild, disjoint⟩ :=
            List.nodup_append.mp (shuffled.nodup_iff.mpr distinct)
          have apart : ∀ page ∈ id :: (pagesBefore ++ pagesAfter), page ∉ pagesChild :=
            fun page member member' => disjoint page member page member' rfl
          have liveRest : ∀ page ∈ id :: (pagesBefore ++ pagesAfter), view read page ≠ .free :=
            fun page member => live page (shuffled.mem_iff.mp (List.mem_append_left _ member))
          obtain ⟨answer, pagesChild', subtree, nodup, replaces⟩ :=
            ih descent.found nodupChild descent.inside run fit
          have kept : ∀ page ∈ id :: (pagesBefore ++ pagesAfter), view after page = view read page :=
            fun page member => (replaces.kept (liveRest page member) (apart page member)).2
          have gathered : (id :: (pagesBefore ++ pagesChild' ++ pagesAfter)).Perm
              (id :: (pagesBefore ++ pagesAfter) ++ pagesChild') := by
            rw [List.perm_iff_count]
            intro page
            simp only [List.count_append, List.count_cons]
            omega
          refine ⟨?_, _, ⟨_, _, holds.congr (kept id List.mem_cons_self), ?_, rfl⟩,
            gathered.nodup_iff.mpr (replaces.nodup_frame nodupRest nodup liveRest apart),
            (replaces.frame liveRest apart).perm shuffled.symm gathered⟩
          · rw [answer]
            constructor
            · rintro ⟨entry, member, isRowid⟩
              exact ⟨entry, by simp [member], isRowid⟩
            · rintro ⟨entry, member, isRowid⟩
              rcases List.mem_append.mp member with inFront | inAfter
              · rcases List.mem_append.mp inFront with inBefore | inHeld
                · exact absurd isRowid (descent.below entry inBefore).ne
                · exact ⟨entry, inHeld, isRowid⟩
              · exact absurd isRowid (descent.above entry inAfter).ne'
          · rw [Entries.drop_append descent.below descent.above]
            exact descent.rebuild subtree fun page member => kept page (List.mem_cons_of_mem _ member)

/-- **Deleting.** The tree holds what it held but the rowid, and the answer is
whether it was there. -/
theorem delete_ok {fuel : Nat} {root : PageId} {entries : Rows} {pages : List PageId}
    {rowid : Int64} {found : Bool} (tree : Tree (view store) root entries pages)
    (run : delete fuel root rowid store = .ok found after) (fit : after.allFit = true) :
    (found = true ↔ ∃ entry ∈ entries, entry.1 = rowid) ∧
      ∃ pages', Tree (view after) root (Entries.drop rowid entries) pages' ∧
        Replaces (view store) (view after) pages pages' := by
  obtain ⟨depth, subtree, distinct⟩ := tree
  obtain ⟨answer, pages', subtree', distinct', replaces⟩ := delete_subtree subtree distinct
    ⟨Bound.bot_lt_key _, Bound.key_le_top _⟩ run fit
  exact ⟨answer, pages', ⟨depth, subtree', distinct'⟩, replaces⟩

end BTree

end Squrust.Core
