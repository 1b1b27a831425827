import Squrust.Core.BTree.Subtree

/-!
# Finding the place of a rowid

The two searches of the tree, as facts about what it holds. The search in a leaf
finds the cell of a rowid or the gap where it belongs (`LeafNode.search_cases`).
The search in an interior node finds the child whose range contains the rowid
(`Body.descent`); the rest of the node lies below and above the rowid, and the
node can be put together again around a changed child, or around the two halves
of a child that was split.
-/

set_option autoImplicit false

namespace Squrust.Core

open Squrust.Foundation

/-! ## In a leaf -/

/-- Where the search stops. -/
theorem LeafNode.search_eq {leaf : LeafNode} {before after : List LeafSlot} {rowid : Int64}
    (cells : leaf.cells = (before ++ after).map LeafSlot.cell)
    (below : ∀ slot ∈ before, slot.cell.rowid < rowid)
    (next : ∀ slot ∈ after.head?, ¬ slot.cell.rowid < rowid) :
    leaf.search rowid = match after.head? with
      | some slot => if slot.cell.rowid = rowid then .ok before.length else .error before.length
      | none => .error before.length := by
  have front : (leaf.cells.takeWhile fun c => decide (c.rowid < rowid)) =
      before.map LeafSlot.cell := by
    rw [cells, List.map_append, List.takeWhile_append_of_pos]
    · cases after with
      | nil => simp
      | cons slot rest =>
          have stop : ¬ slot.cell.rowid < rowid := next slot (by simp)
          simp [stop]
    · intro cell member
      obtain ⟨slot, inBefore, rfl⟩ := List.mem_map.mp member
      exact decide_eq_true (below slot inBefore)
  have index : leaf.cells[before.length]? = after.head?.map LeafSlot.cell := by
    rw [cells, List.map_append, List.getElem?_append_right (by simp)]
    cases after <;> simp
  unfold LeafNode.search
  simp only [front, List.length_map, index]
  cases after with
  | nil => rfl
  | cons slot rest => rfl

/-- The search ends at the cell of the rowid, or in the gap where it belongs. -/
theorem LeafNode.search_cases {leaf : LeafNode} {slots : List LeafSlot} (rowid : Int64)
    (cells : leaf.cells = slots.map LeafSlot.cell)
    (ascending : Ascending (slots.map LeafSlot.entry)) :
    (∃ before slot after, slots = before ++ slot :: after ∧ slot.cell.rowid = rowid ∧
      (∀ other ∈ before, other.cell.rowid < rowid) ∧ (∀ other ∈ after, rowid < other.cell.rowid) ∧
      leaf.search rowid = .ok before.length) ∨
    (∃ before after, slots = before ++ after ∧ (∀ other ∈ before, other.cell.rowid < rowid) ∧
      (∀ other ∈ after, rowid < other.cell.rowid) ∧ leaf.search rowid = .error before.length) := by
  have sorted : slots.Pairwise fun first second => first.cell.rowid < second.cell.rowid := by
    rw [Ascending, List.pairwise_map] at ascending
    exact ascending
  let small := fun slot : LeafSlot => decide (slot.cell.rowid < rowid)
  have below : ∀ slot ∈ slots.takeWhile small, slot.cell.rowid < rowid := fun slot member => by
    simpa [small] using List.all_eq_true.mp List.all_takeWhile slot member
  have next : ∀ slot ∈ (slots.dropWhile small).head?, ¬ slot.cell.rowid < rowid := by
    intro slot first
    have stop := List.head?_dropWhile_not small slots
    rw [Option.mem_def.mp first] at stop
    simpa [small] using stop
  generalize before_eq : slots.takeWhile small = before at below
  generalize after_eq : slots.dropWhile small = after at next
  have whole : slots = before ++ after := by
    rw [← before_eq, ← after_eq, List.takeWhile_append_dropWhile]
  subst whole
  have search := LeafNode.search_eq cells below next
  cases after with
  | nil => exact .inr ⟨before, [], rfl, below, by simp, search⟩
  | cons slot after =>
      have later := (List.pairwise_cons.mp (List.pairwise_append.mp sorted).2.1).1
      have notBelow : ¬ slot.cell.rowid < rowid := next slot (by simp)
      simp only [List.head?_cons] at search
      by_cases same : slot.cell.rowid = rowid
      · rw [if_pos same] at search
        exact .inl ⟨before, slot, after, rfl, same, below, fun other member =>
          same ▸ later other member, search⟩
      · rw [if_neg same] at search
        have above : rowid < slot.cell.rowid := lt_of_le_of_ne (not_lt.mp notBelow) (Ne.symm same)
        refine .inr ⟨before, _, rfl, below, fun other member => ?_, search⟩
        rcases List.mem_cons.mp member with rfl | member
        · exact above
        · exact above.trans (later other member)

/-! ## In an interior node -/

/-- The place of a rowid among the separators of a node. -/
theorem InteriorNode.childFor_eq {n : InteriorNode} {before after : List (PageId × Int64)}
    {child : PageId} {separator rowid : Int64} (cells : n.cells = before ++ (child, separator) :: after)
    (below : ∀ cell ∈ before, cell.2 < rowid) (upTo : rowid ≤ separator) :
    n.childFor rowid = child ∧
      n.cells.findIdx? (fun (_, key) => decide (rowid ≤ key)) = some before.length := by
  have skip : ∀ cell ∈ before, ¬ rowid ≤ cell.2 := fun cell member => not_le.mpr (below cell member)
  constructor
  · have found : n.cells.find? (fun cell => decide (rowid ≤ cell.2)) = some (child, separator) := by
      rw [cells, List.find?_append, List.find?_eq_none.mpr (by simpa using skip)]
      simp [upTo]
    rw [childFor, found]
  · rw [cells, List.findIdx?_append, List.findIdx?_eq_none_iff.mpr (by simpa using skip)]
    simp [List.findIdx?_cons, upTo]

theorem InteriorNode.childFor_last {n : InteriorNode} {rowid : Int64}
    (below : ∀ cell ∈ n.cells, cell.2 < rowid) :
    n.childFor rowid = n.rightChild ∧
      n.cells.findIdx? (fun (_, key) => decide (rowid ≤ key)) = none := by
  have skip : ∀ cell ∈ n.cells, ¬ rowid ≤ cell.2 := fun cell member => not_le.mpr (below cell member)
  constructor
  · rw [childFor, List.find?_eq_none.mpr (by simpa using skip)]
  · exact List.findIdx?_eq_none_iff.mpr (by simpa using skip)

theorem insertIdx_append {α : Type} (before after : List α) (x : α) :
    (before ++ after).insertIdx before.length x = before ++ x :: after := by
  induction before with
  | nil => rfl
  | cons first before ih => simp [ih]

/-- The children of a node from left to right. -/
def InteriorNode.children (n : InteriorNode) : List PageId := n.cells.map Prod.fst ++ [n.rightChild]

/-- Subtrees of one depth, one after the other. -/
inductive Forest (view : View PageId PageData) (depth : Nat) :
    List PageId → Rows → List PageId → Prop where
  | nil : Forest view depth [] [] []
  | cons {low high : Bound Int64} {id : PageId} {ids : List PageId} {entries entries' : Rows}
      {pages pages' : List PageId} (first : Subtree view depth low high id entries pages)
      (rest : Forest view depth ids entries' pages') :
      Forest view depth (id :: ids) (entries ++ entries') (pages ++ pages')

/-- Children up to a last one. -/
theorem forest_of_spans {view : View PageId PageData} {depth : Nat} {low middle high : Bound Int64}
    {cells : List (PageId × Int64)} {last : PageId} {entries entries' : Rows}
    {pages pages' : List PageId} (spans : Spans (Subtree view depth) low cells middle entries pages)
    (right : Subtree view depth middle high last entries' pages') :
    Forest view depth (cells.map Prod.fst ++ [last]) (entries ++ entries') (pages ++ pages') := by
  induction spans with
  | nil low =>
      have one : Forest view depth [last] (entries' ++ []) (pages' ++ []) := .cons right .nil
      simpa using one
  | cons first rest ih =>
      rw [List.append_assoc, List.append_assoc]
      exact .cons first (ih right)

/-- The child of a rowid, with what the node holds around it. -/
structure Descent (view : View PageId PageData) (depth : Nat) (low high : Bound Int64)
    (n : InteriorNode) (rowid : Int64) (pos : Option Nat) (child : PageId)
    (start stop : Bound Int64) (before held after : Rows)
    (pagesBefore pages pagesAfter : List PageId) : Prop where
  found : Subtree view depth start stop child held pages
  inside : InRange start stop rowid
  position : n.cells.findIdx? (fun (_, key) => decide (rowid ≤ key)) = pos
  childAtPos : BTree.childAtPos n pos = .ok child
  childFor : n.childFor rowid = child
  childAt : BTreeCursor.childAt n (pos.getD n.cells.length) = child
  later : Forest view depth (n.children.drop (pos.getD n.cells.length + 1)) after pagesAfter
  below : ∀ entry ∈ before, entry.1 < rowid
  above : ∀ entry ∈ after, rowid < entry.1
  /-- The node around a changed child. -/
  rebuild : ∀ {view' held' pages'}, Subtree view' depth start stop child held' pages' →
    (∀ id ∈ pagesBefore ++ pagesAfter, view' id = view id) →
    Body view' (depth + 1) low high (.interior n) (before ++ held' ++ after)
      (pagesBefore ++ pages' ++ pagesAfter)
  /-- The node around the halves of a child that was split. -/
  relink : ∀ {view' held₁ held₂ pages₁ pages₂ split n'},
    Subtree view' depth start (Bound.key split.sepKey) child held₁ pages₁ →
    Subtree view' depth (Bound.key split.sepKey) stop split.rightPage held₂ pages₂ →
    (∀ id ∈ pagesBefore ++ pagesAfter, view' id = view id) →
    BTree.linkSplit n pos child split = .ok n' →
    Body view' (depth + 1) low high (.interior n') (before ++ (held₁ ++ held₂) ++ after)
      (pagesBefore ++ (pages₁ ++ pages₂) ++ pagesAfter)

/-- A rowid of the node's range belongs to one child. -/
theorem Body.descent {view : View PageId PageData} {depth : Nat} {low high : Bound Int64}
    {n : InteriorNode} {entries : Rows} {owned : List PageId} {rowid : Int64}
    (body : Body view (depth + 1) low high (.interior n) entries owned)
    (inside : InRange low high rowid) :
    ∃ pos child start stop before held after pagesBefore pages pagesAfter,
      Descent view depth low high n rowid pos child start stop before held after pagesBefore pages
        pagesAfter ∧
      entries = before ++ held ++ after ∧ owned = pagesBefore ++ pages ++ pagesAfter := by
  have ranged := Subtree.ranged view depth
  obtain ⟨middle, rows, last, nodes, nodes', spans, right, rfl, rfl⟩ := body_interior.mp body
  rcases spans.route inside.1 with
    ⟨cellsBefore, child, separator, cellsAfter, start, before, held, after, pagesBefore, pages,
      pagesAfter, cells, lower, upper, left, found, rest, above, rfl, rfl⟩ | ⟨lower, past⟩
  · -- the rowid is below a separator
    obtain ⟨childFor, position⟩ := InteriorNode.childFor_eq cells lower upper
    have atPos : n.cells[cellsBefore.length]? = some (child, separator) := by simp [cells]
    have kept : ∀ {view' : View PageId PageData},
        (∀ id ∈ pagesBefore ++ (pagesAfter ++ nodes'), view' id = view id) →
        Spans (Subtree view' depth) low cellsBefore start before pagesBefore ∧
        Spans (Subtree view' depth) (Bound.key separator) cellsAfter middle after pagesAfter ∧
        Subtree view' depth middle high n.rightChild last nodes' := by
      intro view' same
      simp only [List.mem_append] at same
      exact ⟨left.imp fun within subtree => subtree.congr fun id member =>
          same id (.inl (within id member)),
        rest.imp fun within subtree => subtree.congr fun id member =>
          same id (.inr (.inl (within id member))),
        right.congr fun id member => same id (.inr (.inr member))⟩
    refine ⟨some cellsBefore.length, child, start, Bound.key separator, before, held, after ++ last,
      pagesBefore, pages, pagesAfter ++ nodes', ⟨found, ⟨above, Bound.key_le_key.mpr upper⟩,
      position, by simp [BTree.childAtPos, atPos, Outcome.orPanic], childFor,
      by simp [BTreeCursor.childAt, atPos], ?_, ?_, ?_, ?_, ?_⟩, by simp, by simp⟩
    · have behind : n.children.drop (cellsBefore.length + 1) =
          cellsAfter.map Prod.fst ++ [n.rightChild] := by
        simp [InteriorNode.children, cells, List.drop_append]
      rw [Option.getD_some, behind]
      exact forest_of_spans rest right
    · exact below_of_inRange (left.inRange ranged) above
    · intro entry member
      rcases List.mem_append.mp member with here | there
      · exact above_of_inRange (rest.inRange ranged) (Bound.key_le_key.mpr upper) entry here
      · exact above_of_inRange (ranged.inRange right)
          ((Bound.key_le_key.mpr upper).trans (rest.le ranged)) entry there
    · intro view' held' pages' changed same
      obtain ⟨left', rest', right'⟩ := kept same
      refine body_interior.mpr ⟨middle, before ++ (held' ++ after), last,
        pagesBefore ++ (pages' ++ pagesAfter), nodes', ?_, right', by simp, by simp⟩
      rw [cells]
      exact left'.append (.cons changed rest')
    · intro view' held₁ held₂ pages₁ pages₂ split n' first second same link
      obtain ⟨left', rest', right'⟩ := kept same
      simp only [BTree.linkSplit, atPos, Outcome.orPanic, Outcome.ok_bind, Outcome.pure_eq_ok] at link
      subst link
      have relinked : (n.cells.set cellsBefore.length (child, split.sepKey)).insertIdx
          (cellsBefore.length + 1) (split.rightPage, separator) =
          cellsBefore ++ (child, split.sepKey) :: (split.rightPage, separator) :: cellsAfter := by
        have changed : n.cells.set cellsBefore.length (child, split.sepKey) =
            cellsBefore ++ [(child, split.sepKey)] ++ cellsAfter := by simp [cells]
        have place : cellsBefore.length + 1 = (cellsBefore ++ [(child, split.sepKey)]).length := by
          simp
        rw [changed, place, insertIdx_append]
        simp
      refine body_interior.mpr ⟨middle, before ++ (held₁ ++ (held₂ ++ after)), last,
        pagesBefore ++ (pages₁ ++ (pages₂ ++ pagesAfter)), nodes', ?_, right', by simp, by simp⟩
      rw [relinked]
      exact left'.append (.cons first (.cons second rest'))
  · -- the rowid is past the last separator
    obtain ⟨childFor, position⟩ := InteriorNode.childFor_last lower
    have kept : ∀ {view' : View PageId PageData},
        (∀ id ∈ nodes ++ [], view' id = view id) →
        Spans (Subtree view' depth) low n.cells middle rows nodes := fun same =>
      spans.imp fun within subtree => subtree.congr fun id member =>
        same id (by simpa using within id member)
    refine ⟨none, n.rightChild, middle, high, rows, last, [], nodes, nodes', [],
      ⟨right, ⟨past, inside.2⟩, position, rfl, childFor, by simp [BTreeCursor.childAt], ?_, ?_,
        by simp, ?_, ?_⟩, by simp, by simp⟩
    · have behind : n.children.drop (n.cells.length + 1) = [] := by simp [InteriorNode.children]
      rw [Option.getD_none, behind]
      exact .nil
    · exact below_of_inRange (spans.inRange ranged) past
    · intro view' held' pages' changed same
      exact body_interior.mpr ⟨middle, rows, held', nodes, pages', kept same, changed, by simp,
        by simp⟩
    · intro view' held₁ held₂ pages₁ pages₂ split n' first second same link
      rw [BTree.linkSplit, Except.ok.injEq] at link
      subst link
      refine body_interior.mpr ⟨Bound.key split.sepKey, rows ++ held₁, held₂, nodes ++ pages₁,
        pages₂, ?_, second, by simp, by simp⟩
      have one : Spans (Subtree view' depth) middle [(n.rightChild, split.sepKey)]
          (Bound.key split.sepKey) (held₁ ++ []) (pages₁ ++ []) := .cons first (.nil _)
      rw [List.append_nil, List.append_nil] at one
      exact (kept same).append one

end Squrust.Core
