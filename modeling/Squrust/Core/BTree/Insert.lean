import Squrust.Core.BTree.Descent

/-!
# Inserting a record

An insert puts the record under its rowid and changes nothing else of what the
tree holds, for a new rowid and for one whose record is replaced, whether nodes
split on the way up or not, and when the root grows (`insert_ok`).

Each step of the recursion leaves a subtree, or two halves of one and the
separator between them (`Grown`). Pages are accounted for: the step owned the
pages of its subtree and of the new record's chain, and it ends with the pages
of what it left (`Replaces`); a replaced record's chain is given back.
-/

set_option autoImplicit false

namespace Squrust.Core

open Squrust.Foundation

/-- What a step leaves: a subtree, or two halves with a separator. -/
def Grown (view : View PageId PageData) (depth : Nat) (low high : Bound Int64) (id : PageId)
    (entries : Rows) (pages : List PageId) : Option Split → Prop
  | none => Subtree view depth low high id entries pages
  | some split => ∃ left right pagesLeft pagesRight,
      Subtree view depth low (Bound.key split.sepKey) id left pagesLeft ∧
      Subtree view depth (Bound.key split.sepKey) high split.rightPage right pagesRight ∧
      entries = left ++ right ∧ pages = pagesLeft ++ pagesRight

namespace Grown

variable {view view' : View PageId PageData} {depth : Nat} {low high : Bound Int64} {id : PageId}
  {entries : Rows} {pages : List PageId} {result : Option Split}

theorem congr (grown : Grown view depth low high id entries pages result)
    (same : ∀ id ∈ pages, view' id = view id) : Grown view' depth low high id entries pages result := by
  cases result with
  | none => exact Subtree.congr grown same
  | some split =>
      obtain ⟨left, right, pagesLeft, pagesRight, first, second, rfl, rfl⟩ := grown
      exact ⟨left, right, pagesLeft, pagesRight,
        first.congr fun id member => same id (List.mem_append_left _ member),
        second.congr fun id member => same id (List.mem_append_right _ member), rfl, rfl⟩

theorem live (grown : Grown view depth low high id entries pages result) :
    ∀ id ∈ pages, view id ≠ .free := by
  cases result with
  | none => exact Subtree.live grown
  | some split =>
      obtain ⟨left, right, pagesLeft, pagesRight, first, second, rfl, rfl⟩ := grown
      intro id member
      rcases List.mem_append.mp member with here | there
      · exact first.live id here
      · exact second.live id there

end Grown

/-! ## Halves -/

section Halves

variable {view : View PageId PageData} {depth : Nat} {low high : Bound Int64} {entries : Rows}
  {owned : List PageId} {sep : Int64}

/-- The two parts of a body, below and above a separator. -/
def Halved (view : View PageId PageData) (depth : Nat) (low high : Bound Int64) (left right : Node)
    (sep : Int64) (entries : Rows) (owned : List PageId) : Prop :=
  ∃ entriesLeft entriesRight ownedLeft ownedRight,
    Body view depth low (Bound.key sep) left entriesLeft ownedLeft ∧
    Body view depth (Bound.key sep) high right entriesRight ownedRight ∧
    entries = entriesLeft ++ entriesRight ∧ owned = ownedLeft ++ ownedRight

/-- The slots of a leaf are cut where its cells are cut. -/
theorem halved_leaf {l left right : LeafNode}
    (body : Body view 0 low high (.leaf l) entries owned)
    (split : splitLeaf l = .ok (left, right, sep)) :
    Halved view 0 low high (.leaf left) (.leaf right) sep entries owned := by
  obtain ⟨before, last, leftCells, rfl, nonempty, cells⟩ := splitLeaf_cut split
  obtain ⟨_, ranges, ascending, slots, slotCells, rfl, rfl, stored⟩ := body_leaf.mp body
  rw [slotCells] at cells
  obtain ⟨slotsLeft, slotsRight, rfl, cellsLeft, cellsRight⟩ := List.map_eq_append_iff.mp cells
  rw [List.map_append] at ranges ascending
  obtain ⟨sortedLeft, sortedRight, between⟩ := List.pairwise_append.mp ascending
  -- the last slot on the left has the separator, the first one on the right is above it
  have cellsLeft' := cellsLeft
  rw [leftCells] at cellsLeft'
  obtain ⟨slotsBefore, slotsLast, rfl, _, lastCell⟩ := List.map_eq_append_iff.mp cellsLeft'
  obtain ⟨slot, rfl, rfl⟩ := List.map_eq_singleton_iff.mp lastCell
  obtain ⟨firstSlot, restSlots, rfl⟩ : ∃ first rest, slotsRight = first :: rest :=
    List.exists_cons_of_ne_nil fun empty => nonempty (by rw [← cellsRight, empty, List.map_nil])
  have isLast : slot.entry ∈ (slotsBefore ++ [slot]).map LeafSlot.entry := by simp
  have isFirst : firstSlot.entry ∈ (firstSlot :: restSlots).map LeafSlot.entry := by simp
  have upTo : ∀ entry ∈ (slotsBefore ++ [slot]).map LeafSlot.entry, entry.1 ≤ slot.cell.rowid := by
    rw [List.map_append, List.pairwise_append] at sortedLeft
    intro entry member
    rw [List.map_append] at member
    rcases List.mem_append.mp member with earlier | here
    · exact (sortedLeft.2.2 entry earlier slot.entry (by simp)).le
    · have same : entry = slot.entry := by simpa using here
      rw [same]
      exact le_rfl
  refine ⟨_, _, _, _, ⟨?_, ?_, sortedLeft, _, cellsLeft.symm, rfl, rfl, ?_⟩,
    ⟨?_, ?_, sortedRight, _, cellsRight.symm, rfl, rfl, ?_⟩, List.map_append,
    List.flatMap_append⟩
  · exact (ranges _ (List.mem_append_left _ isLast)).1
  · intro entry member
    exact ⟨(ranges entry (List.mem_append_left _ member)).1, Bound.key_le_key.mpr (upTo entry member)⟩
  · exact fun other member => stored other (List.mem_append_left _ member)
  · refine (Bound.key_lt_key.mpr (between slot.entry isLast firstSlot.entry isFirst)).trans_le ?_
    exact (ranges firstSlot.entry (List.mem_append_right _ isFirst)).2
  · intro entry member
    exact ⟨Bound.key_lt_key.mpr (between slot.entry isLast entry member),
      (ranges entry (List.mem_append_right _ member)).2⟩
  · exact fun other member => stored other (List.mem_append_right _ member)

/-- The child of the middle cell ends the left half. -/
theorem halved_interior {n left right : InteriorNode}
    (body : Body view (depth + 1) low high (.interior n) entries owned)
    (split : splitInterior n = .ok (left, right, sep)) :
    Halved view (depth + 1) low high (.interior left) (.interior right) sep entries owned := by
  obtain ⟨cells, rightChild⟩ := splitInterior_cut split
  obtain ⟨middle, rows, last, nodes, nodes', spans, child, rfl, rfl⟩ := body_interior.mp body
  rw [cells] at spans
  obtain ⟨cut, rowsLeft, rowsRight, nodesLeft, nodesRight, spansLeft, spansRight, rfl, rfl⟩ :=
    spans.split
  cases spansRight with
  | cons first rest =>
    refine ⟨_, _, _, _, body_interior.mpr ⟨cut, rowsLeft, _, nodesLeft, _, spansLeft, first, rfl,
      rfl⟩, body_interior.mpr ⟨middle, _, last, _, nodes', rest, rightChild ▸ child, rfl, rfl⟩, ?_, ?_⟩
    · simp only [List.append_assoc]
    · simp only [List.append_assoc]

end Halves

namespace BTree

variable {σ : Type} [PageSink σ] [MapSink σ] {store after : Audited σ}

/-! ## Writing nodes -/

/-- A node written to a page of its own is the root of the subtree it stands
for. -/
theorem writeNode_subtree {depth : Nat} {low high : Bound Int64} {id : PageId} {node : Node}
    {entries : Rows} {owned : List PageId} (body : Body (view store) depth low high node entries owned)
    (apart : id ∉ owned) (live : view store id ≠ .free)
    (run : writeNode id node store = .ok () after) (fit : after.allFit = true) :
    Subtree (view after) depth low high id entries (id :: owned) ∧
      Replaces (view store) (view after) [id] [id] := by
  obtain ⟨data, written, parsed, fits⟩ := writeNode_ok body.shaped live run fit
  refine ⟨⟨node, owned, ⟨data, by rw [written, View.set_self], parsed, fits⟩, ?_, rfl⟩,
    written ▸ .write (by simp)⟩
  refine body.congr fun other member => ?_
  rw [written, View.set_of_ne (ne_of_mem_of_not_mem member apart)]

/-- The pages of two halves, the new page first. -/
theorem movedFront (id rightPage : PageId) (ownedLeft ownedRight : List PageId) :
    (id :: ownedLeft ++ rightPage :: ownedRight).Perm
      (rightPage :: id :: (ownedLeft ++ ownedRight)) := by
  rw [List.perm_iff_count]
  intro page
  simp only [List.count_append, List.count_cons]
  omega

/-- The two halves of a node, written to the old page and a new one. -/
theorem writeHalves_ok {depth : Nat} {low high : Bound Int64} {id rightPage : PageId} {sep : Int64}
    {left right : Node} {entries : Rows} {owned : List PageId} {allocated wrote : Audited σ}
    (halved : Halved (view store) depth low high left right sep entries owned)
    (live : ∀ page ∈ id :: owned, view store page ≠ .free) (distinct : (id :: owned).Nodup)
    (alloc : (PageSink.allocPage : Exec (Audited σ) StorageError PageId) store =
      .ok rightPage allocated)
    (writeLeft : writeNode id left allocated = .ok () wrote)
    (writeRight : writeNode rightPage right wrote = .ok () after) (fit : after.allFit = true) :
    ∃ pages,
      Grown (view after) depth low high id entries pages (some ⟨sep, rightPage⟩) ∧
      pages.Nodup ∧ Replaces (view store) (view after) (id :: owned) pages := by
  obtain ⟨entriesLeft, entriesRight, ownedLeft, ownedRight, bodyLeft, bodyRight, rfl, rfl⟩ := halved
  have fitLeft := tracked_writeNode _ _ writeRight fit
  obtain ⟨_, free, taken⟩ := MapSink.allocPage_ok (live id List.mem_cons_self) alloc
  have one : Replaces (view store) (view allocated) [] [rightPage] := taken ▸ .take free (by simp)
  have fresh : rightPage ∉ id :: (ownedLeft ++ ownedRight) := fun member => live _ member free
  have kept : ∀ page ∈ id :: (ownedLeft ++ ownedRight), view allocated page = view store page :=
    fun page member => (one.kept (live page member) (by simp)).2
  simp only [List.mem_cons, List.mem_append, not_or, List.nodup_cons] at fresh distinct kept live
  obtain ⟨other, notLeft, notRight⟩ := fresh
  obtain ⟨⟨idLeft, idRight⟩, distinct⟩ := distinct
  -- the left half, on the old page
  obtain ⟨subtreeLeft, two⟩ := writeNode_subtree
    (bodyLeft.congr fun page member => kept page (.inr (.inl member))) idLeft
    (by rw [kept id (.inl rfl)]; exact live id (.inl rfl)) writeLeft fitLeft
  have keptTwo : ∀ page, page ≠ id → view wrote page = view allocated page := fun page different =>
    two.others page (by simpa using different) (by simpa using different)
  -- the right half, on the new page
  obtain ⟨subtreeRight, three⟩ := writeNode_subtree
    (bodyRight.congr fun page member =>
      (keptTwo page (ne_of_mem_of_not_mem member idRight)).trans (kept page (.inr (.inr member))))
    notRight (by rw [keptTwo rightPage other]; exact one.held rightPage (by simp)) writeRight fit
  have keptThree : ∀ page, page ≠ rightPage → view after page = view wrote page :=
    fun page different => three.others page (by simpa using different) (by simpa using different)
  refine ⟨_, ⟨entriesLeft, entriesRight, id :: ownedLeft, rightPage :: ownedRight,
    subtreeLeft.congr ?_, subtreeRight, rfl, rfl⟩, ?_, ?_⟩
  · intro page member
    refine keptThree page ?_
    rcases List.mem_cons.mp member with rfl | member
    · exact Ne.symm other
    · exact ne_of_mem_of_not_mem member notLeft
  · rw [(movedFront id rightPage ownedLeft ownedRight).nodup_iff]
    simp only [List.nodup_cons, List.mem_cons, List.mem_append, not_or]
    exact ⟨⟨other, notLeft, notRight⟩, ⟨idLeft, idRight⟩, distinct⟩
  · have grown : Replaces (view store) (view allocated) (id :: (ownedLeft ++ ownedRight))
        (rightPage :: id :: (ownedLeft ++ ownedRight)) :=
      one.frame_right (by simpa using live) (by simp)
    have wroteBoth := (two.within (by simp) grown.held).trans
      (three.within (by simp) (two.within (by simp) grown.held).held)
    exact (grown.trans wroteBoth).perm (.refl _) (movedFront id rightPage ownedLeft ownedRight)

/-- A leaf that may have become too large. -/
theorem storeLeaf_ok {low high : Bound Int64} {id : PageId} {l : LeafNode} {entries : Rows}
    {owned : List PageId} {result : Option Split}
    (body : Body (view store) 0 low high (.leaf l) entries owned)
    (live : ∀ page ∈ id :: owned, view store page ≠ .free) (distinct : (id :: owned).Nodup)
    (run : storeLeaf id l store = .ok result after) (fit : after.allFit = true) :
    ∃ pages, Grown (view after) 0 low high id entries pages result ∧
      pages.Nodup ∧ Replaces (view store) (view after) (id :: owned) pages := by
  unfold storeLeaf at run
  split at run
  · simp only [Exec.bind_eq_ok, Exec.pure_eq_ok] at run
    obtain ⟨_, wrote, write, rfl, rfl⟩ := run
    obtain ⟨subtree, replaces⟩ := writeNode_subtree body (List.nodup_cons.mp distinct).1
      (live id List.mem_cons_self) write fit
    exact ⟨_, subtree, distinct, replaces.within (by simp) live⟩
  · simp only [Exec.bind_eq_ok, Exec.pure_eq_ok, Exec.lift_eq_ok] at run
    obtain ⟨⟨left, right, sep⟩, _, ⟨split, rfl⟩, rightPage, allocated, alloc, _, wrote, writeLeft,
      _, wroteBoth, writeRight, rfl, rfl⟩ := run
    exact writeHalves_ok (halved_leaf body split) live distinct alloc writeLeft writeRight fit

/-- An interior node that may have become too large. -/
theorem storeInterior_ok {depth : Nat} {low high : Bound Int64} {id : PageId} {n : InteriorNode}
    {entries : Rows} {owned : List PageId} {result : Option Split}
    (body : Body (view store) (depth + 1) low high (.interior n) entries owned)
    (live : ∀ page ∈ id :: owned, view store page ≠ .free) (distinct : (id :: owned).Nodup)
    (run : storeInterior id n store = .ok result after) (fit : after.allFit = true) :
    ∃ pages, Grown (view after) (depth + 1) low high id entries pages result ∧
      pages.Nodup ∧ Replaces (view store) (view after) (id :: owned) pages := by
  unfold storeInterior at run
  split at run
  · simp only [Exec.bind_eq_ok, Exec.pure_eq_ok] at run
    obtain ⟨_, wrote, write, rfl, rfl⟩ := run
    obtain ⟨subtree, replaces⟩ := writeNode_subtree body (List.nodup_cons.mp distinct).1
      (live id List.mem_cons_self) write fit
    exact ⟨_, subtree, distinct, replaces.within (by simp) live⟩
  · simp only [Exec.bind_eq_ok, Exec.pure_eq_ok, Exec.lift_eq_ok] at run
    obtain ⟨⟨left, right, sep⟩, _, ⟨split, rfl⟩, rightPage, allocated, alloc, _, wrote, writeLeft,
      _, wroteBoth, writeRight, rfl, rfl⟩ := run
    exact writeHalves_ok (halved_interior body split) live distinct alloc writeLeft writeRight fit

/-! ## One step of the recursion -/

omit [PageSink σ] [MapSink σ] in
/-- Placing a cell puts its record; the chain it frees and the chains it leaves
are the chains there were. -/
theorem placeCell_ok {pages : View PageId PageData} {l l' : LeafNode} {entries : Rows}
    {owned : List PageId} {slot : LeafSlot} {freed : PageId} (holds : LeafHolds pages l.cells entries owned)
    (ascending : Ascending entries) (stored : slot.Stored pages)
    (run : placeCell l slot.cell = .ok (freed, l')) :
    ∃ owned' freedTail freedIds,
      LeafHolds pages l'.cells (Entries.put slot.cell.rowid slot.record entries) owned' ∧
      OverflowChain pages freed freedTail freedIds ∧
      (freedIds ++ owned').Perm (owned ++ slot.chain) := by
  obtain ⟨slots, cells, rfl, rfl, each⟩ := holds
  unfold placeCell at run
  rcases LeafNode.search_cases slot.cell.rowid cells ascending with
    ⟨before, old, after, rfl, same, below, above, search⟩ |
    ⟨before, after, rfl, below, above, search⟩
  · -- the cell replaces one with its rowid
    have atIndex : l.cells[before.length]? = some old.cell := by
      rw [cells, List.map_append, List.getElem?_append_right (by simp)]
      simp
    simp only [search, atIndex, Outcome.orPanic, Outcome.ok_bind, Outcome.pure_eq_ok,
      Prod.mk.injEq] at run
    obtain ⟨rfl, rfl⟩ := run
    have put : Entries.put slot.cell.rowid slot.record
        ((before ++ old :: after).map LeafSlot.entry) =
        (before ++ slot :: after).map LeafSlot.entry := by
      simp only [List.map_append, List.map_cons]
      rw [show old.entry = (slot.cell.rowid, old.record) from Prod.ext same rfl,
        Entries.put_hit (by simpa [LeafSlot.entry] using below) (by simpa [LeafSlot.entry] using above)]
      rfl
    refine ⟨_, _, old.chain, ⟨before ++ slot :: after, ?_, put, rfl, ?_⟩,
      (each old (by simp)).chain, ?_⟩
    · simp [cells]
    · intro other member
      rcases List.mem_append.mp member with inBefore | inRest
      · exact each other (by simp [inBefore])
      · rcases List.mem_cons.mp inRest with rfl | inAfter
        · exact stored
        · exact each other (by simp [inAfter])
    · rw [List.perm_iff_count]
      intro page
      simp only [List.flatMap_append, List.flatMap_cons, List.count_append]
      omega
  · -- the cell goes into a gap
    simp only [search, Outcome.pure_eq_ok, Prod.mk.injEq] at run
    obtain ⟨rfl, rfl⟩ := run
    have put : Entries.put slot.cell.rowid slot.record ((before ++ after).map LeafSlot.entry) =
        (before ++ slot :: after).map LeafSlot.entry := by
      simp only [List.map_append, List.map_cons]
      rw [Entries.put_cut (by simpa [LeafSlot.entry] using below)
        (by simpa [LeafSlot.entry] using above)]
      rfl
    refine ⟨_, [], [], ⟨before ++ slot :: after, ?_, put, rfl, ?_⟩, .nil, ?_⟩
    · have place : before.length = (before.map LeafSlot.cell).length := by simp
      simp only [cells, List.map_append]
      rw [place, insertIdx_append, List.map_cons]
    · intro other member
      rcases List.mem_append.mp member with inBefore | inRest
      · exact each other (by simp [inBefore])
      · rcases List.mem_cons.mp inRest with rfl | inAfter
        · exact stored
        · exact each other (by simp [inAfter])
    · rw [List.perm_iff_count]
      intro page
      simp only [List.flatMap_append, List.flatMap_cons, List.count_append, List.nil_append]
      omega

/-- The step at a leaf. -/
theorem insertLeaf_ok {fuel : Nat} {low high : Bound Int64} {id : PageId} {l l' : LeafNode}
    {entries : Rows} {owned : List PageId} {slot : LeafSlot} {freed : PageId}
    {result : Option Split} {wrote : Audited σ}
    (holds : Holds (view store) id (.leaf l))
    (body : Body (view store) 0 low high (.leaf l) entries owned)
    (inside : InRange low high slot.cell.rowid) (stored : slot.Stored (view store))
    (distinct : (id :: owned ++ slot.chain).Nodup)
    (place : placeCell l slot.cell = .ok (freed, l'))
    (write : storeLeaf id l' store = .ok result wrote)
    (release : releaseChain fuel freed wrote = .ok () after) (fit : after.allFit = true) :
    ∃ pages,
      Grown (view after) 0 low high id (Entries.put slot.cell.rowid slot.record entries) pages result ∧
      pages.Nodup ∧ Replaces (view store) (view after) (id :: owned ++ slot.chain) pages := by
  have subtree : Subtree (view store) 0 low high id entries (id :: owned) :=
    ⟨_, owned, holds, body, rfl⟩
  obtain ⟨less, ranges, ascending, cells⟩ := body_leaf.mp body
  obtain ⟨owned', tail, freedIds, cells', chain, moved⟩ := placeCell_ok cells ascending stored place
  have body' : Body (view store) 0 low high (.leaf l')
      (Entries.put slot.cell.rowid slot.record entries) owned' := by
    refine ⟨less, fun entry member => ?_, Entries.ascending_put ascending, cells'⟩
    rcases Entries.mem_put.mp member with rfl | ⟨there, _⟩
    · exact inside
    · exact ranges entry there
  -- the pages there were, with the ones to be freed in front
  have shuffled : (freedIds ++ id :: owned').Perm (id :: owned ++ slot.chain) :=
    List.perm_middle.trans (moved.cons id)
  obtain ⟨nodupFreed, nodupKept, disjoint⟩ :=
    List.nodup_append.mp (shuffled.nodup_iff.mpr distinct)
  have apart : ∀ page ∈ freedIds, page ∉ id :: owned' := fun page member member' =>
    disjoint page member page member' rfl
  have live : ∀ page ∈ freedIds ++ id :: owned', view store page ≠ .free := by
    intro page member
    rcases List.mem_append.mp (shuffled.mem_iff.mp member) with old | new
    · exact subtree.live page old
    · exact stored.chain.live page new
  have liveFreed : ∀ page ∈ freedIds, view store page ≠ .free := fun page member =>
    live page (List.mem_append_left _ member)
  obtain ⟨pages, grown, nodup, replaces⟩ := storeLeaf_ok body'
    (fun page member => live page (List.mem_append_right _ member)) nodupKept write
    (tracked_releaseChain _ _ release fit)
  have freeing := releaseChain_ok
    (chain.congr fun page member => (replaces.kept (liveFreed page member) (apart page member)).2)
    nodupFreed release
  -- the freed pages are none of the subtree's
  have notFreed : ∀ page ∈ pages, page ∉ freedIds := fun page member inFreed =>
    (replaces.kept (liveFreed page inFreed) (apart page inFreed)).1 member
  refine ⟨pages, grown.congr fun page member =>
    freeing.others page (notFreed page member) (by simp), nodup, ?_⟩
  have whole := (replaces.frame liveFreed apart).trans
    (freeing.frame_right grown.live notFreed)
  exact whole.perm shuffled.symm (.refl _)

/-- The step at an interior node, after the step at the child. -/
theorem insertInterior_ok {depth : Nat} {low high start stop : Bound Int64} {id child : PageId}
    {n : InteriorNode} {pos : Option Nat} {rowid : Int64} {before held held' rowsAfter : Rows}
    {pagesBefore pagesChild pagesChild' pagesAfter chain : List PageId} {split result : Option Split}
    {between : Audited σ}
    (holds : Holds (view store) id (.interior n))
    (body : Body (view store) (depth + 1) low high (.interior n) (before ++ held ++ rowsAfter)
      (pagesBefore ++ pagesChild ++ pagesAfter))
    (descent : Descent (view store) depth low high n rowid pos child start stop before held rowsAfter
      pagesBefore pagesChild pagesAfter)
    (distinct : (id :: (pagesBefore ++ pagesChild ++ pagesAfter) ++ chain).Nodup)
    (grown : Grown (view between) depth start stop child held' pagesChild' split)
    (nodup : pagesChild'.Nodup)
    (replaces : Replaces (view store) (view between) (pagesChild ++ chain) pagesChild')
    (run : afterChild id n pos child split between = .ok result after) (fit : after.allFit = true) :
    ∃ pages,
      Grown (view after) (depth + 1) low high id (before ++ held' ++ rowsAfter) pages result ∧
      pages.Nodup ∧
      Replaces (view store) (view after) (id :: (pagesBefore ++ pagesChild ++ pagesAfter) ++ chain)
        pages := by
  have subtree : Subtree (view store) (depth + 1) low high id (before ++ held ++ rowsAfter)
      (id :: (pagesBefore ++ pagesChild ++ pagesAfter)) := ⟨_, _, holds, body, rfl⟩
  -- the node's own page and the other children's pages stay
  have shuffled : (id :: (pagesBefore ++ pagesAfter) ++ (pagesChild ++ chain)).Perm
      (id :: (pagesBefore ++ pagesChild ++ pagesAfter) ++ chain) := by
    rw [List.perm_iff_count]
    intro page
    simp only [List.count_append, List.count_cons]
    omega
  obtain ⟨nodupRest, _, disjoint⟩ := List.nodup_append.mp (shuffled.nodup_iff.mpr distinct)
  have apart : ∀ page ∈ id :: (pagesBefore ++ pagesAfter), page ∉ pagesChild ++ chain :=
    fun page member member' => disjoint page member page member' rfl
  have live : ∀ page ∈ id :: (pagesBefore ++ pagesAfter), view store page ≠ .free := by
    intro page member
    refine subtree.live page ?_
    simp only [List.mem_cons, List.mem_append] at member ⊢
    tauto
  have kept : ∀ page ∈ id :: (pagesBefore ++ pagesAfter), view between page = view store page :=
    fun page member => (replaces.kept (live page member) (apart page member)).2
  have keptRows : ∀ page ∈ pagesBefore ++ pagesAfter, view between page = view store page :=
    fun page member => kept page (List.mem_cons_of_mem _ member)
  have framed := replaces.frame live apart
  have gathered : (id :: (pagesBefore ++ pagesChild' ++ pagesAfter)).Perm
      (id :: (pagesBefore ++ pagesAfter) ++ pagesChild') := by
    rw [List.perm_iff_count]
    intro page
    simp only [List.count_append, List.count_cons]
    omega
  have nodup' := gathered.nodup_iff.mpr (replaces.nodup_frame nodupRest nodup live apart)
  cases split with
  | none =>
      obtain ⟨rfl, rfl⟩ := Exec.pure_eq_ok.mp run
      exact ⟨_, ⟨_, _, holds.congr (kept id List.mem_cons_self), descent.rebuild grown keptRows, rfl⟩,
        nodup', framed.perm shuffled.symm gathered⟩
  | some split =>
      simp only [afterChild, Exec.bind_eq_ok, Exec.lift_eq_ok] at run
      obtain ⟨n', _, ⟨link, rfl⟩, store⟩ := run
      obtain ⟨left, right, pagesLeft, pagesRight, first, second, rfl, rfl⟩ := grown
      have body' := descent.relink first second keptRows link
      obtain ⟨pages, grown', nodupPages, replaces'⟩ := storeInterior_ok body'
        (fun page member => framed.held page (gathered.mem_iff.mp member)) nodup' store fit
      exact ⟨pages, grown', nodupPages, (framed.perm shuffled.symm gathered).trans replaces'⟩

/-- The recursion puts the record. -/
theorem insertRec_ok {fuel depth : Nat} {low high : Bound Int64} {id : PageId} {entries : Rows}
    {pages : List PageId} {slot : LeafSlot} {result : Option Split}
    (subtree : Subtree (view store) depth low high id entries pages)
    (inside : InRange low high slot.cell.rowid) (stored : slot.Stored (view store))
    (distinct : (pages ++ slot.chain).Nodup)
    (run : insertRec fuel id slot.cell store = .ok result after) (fit : after.allFit = true) :
    ∃ pages',
      Grown (view after) depth low high id (Entries.put slot.cell.rowid slot.record entries) pages'
        result ∧
      pages'.Nodup ∧ Replaces (view store) (view after) (pages ++ slot.chain) pages' := by
  induction fuel generalizing depth low high id entries pages store result after with
  | zero => simp [insertRec] at run
  | succ fuel ih =>
      obtain ⟨node, owned, holds, body, rfl⟩ := subtree
      rw [insertRec, Exec.bind_eq_ok] at run
      obtain ⟨got, read, get, run⟩ := run
      obtain ⟨rfl, same⟩ := getNode_ok holds get
      rw [← same] at holds body stored ⊢
      cases depth with
      | zero =>
          obtain ⟨l, rfl⟩ := body.leaf_of_zero
          simp only [Exec.bind_eq_ok, Exec.lift_eq_ok] at run
          obtain ⟨⟨freed, l'⟩, _, ⟨place, rfl⟩, made, wrote, write, _, released, release, done⟩ :=
            run
          obtain ⟨rfl, rfl⟩ := Exec.pure_eq_ok.mp done
          exact insertLeaf_ok holds body inside stored distinct place write release fit
      | succ depth =>
          obtain ⟨n, rfl⟩ := body.interior_of_succ
          obtain ⟨pos, child, start, stop, before, held, rowsAfter, pagesBefore, pagesChild,
            pagesAfter, descent, rfl, rfl⟩ := body.descent inside
          simp only [descent.position, descent.childAtPos, Exec.lift_ok_bind] at run
          obtain ⟨split, between, recursion, run⟩ := Exec.bind_eq_ok.mp run
          have childDistinct : (pagesChild ++ slot.chain).Nodup :=
            distinct.sublist (.append (((List.sublist_append_right _ _).trans
              (List.sublist_append_left _ _)).cons _) (.refl _))
          obtain ⟨pagesChild', grown, nodup, replaces⟩ := ih descent.found descent.inside
            stored childDistinct recursion (tracked_afterChild _ _ _ _ _ run fit)
          rw [Entries.put_append descent.below descent.above]
          exact insertInterior_ok holds body descent distinct grown nodup replaces run fit

/-! ## Growing the root, and the whole insert -/

/-- The tree at a root: a subtree for all rowids, on pages of its own. -/
def Tree (view : View PageId PageData) (root : PageId) (entries : Rows) (pages : List PageId) :
    Prop :=
  ∃ depth, Subtree view depth ⊥ ⊤ root entries pages ∧ pages.Nodup

/-- The old root moves to a new page; the tree is one level deeper. -/
theorem growRoot_ok {depth : Nat} {root : PageId} {entries : Rows} {pages : List PageId}
    {split : Split}
    (grown : Grown (view store) depth ⊥ ⊤ root entries pages (some split)) (distinct : pages.Nodup)
    (run : growRoot root split store = .ok () after) (fit : after.allFit = true) :
    ∃ pages', Tree (view after) root entries pages' ∧
      Replaces (view store) (view after) pages pages' := by
  have live := grown.live
  obtain ⟨left, right, pagesLeft, pagesRight, ⟨node, owned, holds, body, rfl⟩, second, rfl, rfl⟩ :=
    grown
  simp only [growRoot, Exec.bind_eq_ok] at run
  obtain ⟨got, read, get, leftPage, allocated, alloc, _, moved, move, write⟩ := run
  obtain ⟨rfl, same⟩ := getNode_ok holds get
  have fitMoved := tracked_writeNode _ _ write fit
  obtain ⟨_, free, taken⟩ := MapSink.allocPage_ok (by rw [same]; exact holds.live) alloc
  rw [same] at free taken
  have one : Replaces (view store) (view allocated) [] [leftPage] := taken ▸ .take free (by simp)
  have fresh : leftPage ∉ root :: owned ++ pagesRight := fun member => live _ member free
  have grownPages : Replaces (view store) (view allocated) (root :: owned ++ pagesRight)
      (leftPage :: (root :: owned ++ pagesRight)) := one.frame_right live (by simp)
  have kept : ∀ page ∈ root :: owned ++ pagesRight, view allocated page = view store page :=
    fun page member => (one.kept (live page member) (by simp)).2
  simp only [List.cons_append, List.nodup_cons, List.mem_cons, List.mem_append, not_or]
    at fresh distinct kept
  obtain ⟨otherRoot, notOwned, notRight⟩ := fresh
  obtain ⟨⟨rootOwned, rootRight⟩, distinct⟩ := distinct
  -- the old root on the new page
  obtain ⟨subtreeLeft, two⟩ := writeNode_subtree
    (body.congr fun page member => kept page (.inr (.inl member))) notOwned
    (one.held leftPage (by simp)) move fitMoved
  have keptTwo : ∀ page, page ≠ leftPage → view moved page = view allocated page :=
    fun page different => two.others page (by simpa using different) (by simpa using different)
  have subtreeRight := second.congr fun page member =>
    (keptTwo page (ne_of_mem_of_not_mem member notRight)).trans (kept page (.inr (.inr member)))
  -- the new root on the old page
  have body' : Body (view moved) (depth + 1) ⊥ ⊤
      (.interior ⟨[(leftPage, split.sepKey)], split.rightPage⟩) (left ++ [] ++ right)
      (leftPage :: owned ++ [] ++ pagesRight) :=
    body_interior.mpr ⟨Bound.key split.sepKey, left ++ [], right, leftPage :: owned ++ [], pagesRight,
      .cons subtreeLeft (.nil _), subtreeRight, rfl, rfl⟩
  rw [List.append_nil, List.append_nil] at body'
  have rootApart : root ∉ leftPage :: owned ++ pagesRight := by
    simp only [List.cons_append, List.mem_cons, List.mem_append, not_or]
    exact ⟨Ne.symm otherRoot, rootOwned, rootRight⟩
  have rootLive : view moved root ≠ .free := by
    rw [keptTwo root (Ne.symm otherRoot), kept root (.inl rfl)]
    exact live root (by simp)
  obtain ⟨subtree, three⟩ := writeNode_subtree body' rootApart rootLive write fit
  refine ⟨_, ⟨depth + 1, subtree, ?_⟩, ?_⟩
  · simp only [List.cons_append, List.nodup_cons, List.mem_cons, List.mem_append, not_or]
    exact ⟨⟨Ne.symm otherRoot, rootOwned, rootRight⟩, ⟨notOwned, notRight⟩, distinct⟩
  · have wrote := (two.within (by simp) grownPages.held).trans
      (three.within (by simp) (two.within (by simp) grownPages.held).held)
    exact (grownPages.trans wrote).perm (.refl _) (.swap _ _ _)

/-- The cell made for a record stores it. -/
theorem makeCell_ok {rowid : Int64} {record : Record} {cell : LeafCell} {used : PageId}
    (inUse : view store used ≠ .free) (run : makeCell rowid record store = .ok cell after) :
    ∃ chain, cell.rowid = rowid ∧
      LeafSlot.Stored (view after) ⟨cell, record, chain⟩ ∧ chain.Nodup ∧
      Replaces (view store) (view after) [] chain ∧
      chain.length = pagesFor (record.val.length - inlineLenFor record.val.length) := by
  have size : (UInt64.ofNat record.val.length).toNat = record.val.length :=
    UInt64.toNat_ofNat_of_lt' (record.property.trans (by decide))
  unfold makeCell at run
  simp only [size] at run
  split at run
  · next short =>
    obtain ⟨rfl, rfl⟩ := Exec.pure_eq_ok.mp run
    have whole := inlineLenFor_of_le short
    refine ⟨[], rfl, ⟨size, ?_, by simpa using short, ?_⟩, List.nodup_nil, .refl (by simp), ?_⟩
    · rw [whole, List.take_length]
    · rw [whole, List.drop_length]
      exact .nil
    · rw [whole, Nat.sub_self]
      rfl
  · next long =>
    simp only [Exec.bind_eq_ok, Exec.pure_eq_ok] at run
    obtain ⟨overflow, wrote, write, rfl, rfl⟩ := run
    obtain ⟨chain, distinct, tail, replaces, count⟩ := writeOverflow_ok inUse write
    rw [List.length_drop] at count
    have some : record.val.drop (inlineLenFor record.val.length) ≠ [] := by
      rw [Ne, List.drop_eq_nil_iff, not_le]
      exact inlineLenFor_lt (not_le.mp long)
    refine ⟨chain, rfl, ⟨size, rfl, ?_, tail⟩, distinct, replaces, count⟩
    exact ⟨fun none => absurd none (tail.ne_zero some), fun short => absurd short long⟩

/-- **Inserting.** The tree holds the record under its rowid, and otherwise what
it held. -/
theorem insert_ok {fuel : Nat} {root : PageId} {entries : Rows} {pages : List PageId}
    {rowid : Int64} {record : Record} (tree : Tree (view store) root entries pages)
    (run : insert fuel root rowid record store = .ok () after) (fit : after.allFit = true) :
    ∃ pages', Tree (view after) root (Entries.put rowid record entries) pages' ∧
      Replaces (view store) (view after) pages pages' := by
  obtain ⟨depth, subtree, distinct⟩ := tree
  simp only [insert, Exec.bind_eq_ok] at run
  obtain ⟨cell, made, make, result, between, recursion, run⟩ := run
  have rootLive : view store root ≠ .free := by
    obtain ⟨node, owned, holds, _, _⟩ := subtree
    exact holds.live
  obtain ⟨chain, rfl, stored, nodup, taken, -⟩ := makeCell_ok rootLive make
  have framed : Replaces (view store) (view made) (pages ++ []) (pages ++ chain) :=
    taken.frame subtree.live (by simp)
  rw [List.append_nil] at framed
  have distinct' : (pages ++ chain).Nodup :=
    taken.nodup_frame distinct nodup subtree.live (by simp)
  have subtree' := subtree.congr fun page member => (taken.kept (subtree.live page member) (by simp)).2
  have inside : InRange ⊥ ⊤ cell.rowid := ⟨Bound.bot_lt_key _, Bound.key_le_top _⟩
  cases result with
  | none =>
      obtain ⟨_, rfl⟩ := Exec.pure_eq_ok.mp run
      obtain ⟨pages', grown, nodup', replaces⟩ :=
        insertRec_ok subtree' inside stored distinct' recursion fit
      exact ⟨pages', ⟨depth, grown, nodup'⟩, framed.trans replaces⟩
  | some split =>
      obtain ⟨pages', grown, nodup', replaces⟩ :=
        insertRec_ok subtree' inside stored distinct' recursion (tracked_growRoot _ _ run fit)
      obtain ⟨pages'', tree, replaces'⟩ := growRoot_ok grown nodup' run fit
      exact ⟨pages'', tree, (framed.trans replaces).trans replaces'⟩

end BTree

end Squrust.Core
