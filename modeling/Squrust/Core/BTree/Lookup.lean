import Squrust.Core.BTree.Delete

/-!
# Reading the tree

What the tree holds is what reading gives: `get` the record of a rowid
(`get_tree`), `lastKey` the last rowid of the rightmost leaf (`lastKey_tree`), a
cursor the rows from its rowid on, in order (`seek_tree`, `collect_tree`). These
calls return on every store that holds a tree, whatever the store does to itself
when it is read, as long as its pages stay.
-/

set_option autoImplicit false

namespace Squrust.Core

open Squrust.Foundation

namespace BTree

variable {σ : Type} [PageSource σ] [MapSource σ] {store : σ}

/-- The call returns this value and leaves the pages as they are. -/
def Reads {α : Type} (call : Nat → Exec σ StorageError α) (store : σ) (value : α) : Prop :=
  ∃ after, Exec.Returns call store value after ∧ view after = view store

namespace Reads

variable {α β : Type} {call : Nat → Exec σ StorageError α} {value : α}

theorem of_succ (reads : Reads (fun fuel => call (fuel + 1)) store value) :
    Reads call store value := by
  obtain ⟨after, returns, same⟩ := reads
  exact ⟨after, returns.of_succ, same⟩

theorem pure (value : α) : Reads (fun _ => (return value : Exec σ StorageError α)) store value :=
  ⟨store, ⟨0, fun _ _ => rfl⟩, rfl⟩

/-- A read of a node, and what follows it on the same pages. -/
theorem getNode_bind {id : PageId} {node : Node} {next : Nat → Node → Exec σ StorageError α}
    (holds : Holds (view store) id node)
    (later : ∀ after, view after = view store → Reads (fun fuel => next fuel node) after value) :
    Reads (fun fuel => getNode id >>= next fuel) store value := by
  obtain ⟨between, run, same⟩ := getNode_held holds
  obtain ⟨after, returns, same'⟩ := later between same
  exact ⟨after, .bind ⟨0, fun _ _ => run⟩ returns, same'.trans same⟩

theorem bind {next : Nat → α → Exec σ StorageError β} {value' : β}
    (earlier : Reads call store value)
    (later : ∀ after, view after = view store → Reads (fun fuel => next fuel value) after value') :
    Reads (fun fuel => call fuel >>= next fuel) store value' := by
  obtain ⟨between, returns, same⟩ := earlier
  obtain ⟨after, returns', same'⟩ := later between same
  exact ⟨after, returns.bind returns', same'.trans same⟩

end Reads

/-- The value of a stored cell is its record. -/
theorem readValue_stored {slot : LeafSlot} (stored : slot.Stored (view store)) :
    Reads (fun fuel => readValue fuel slot.cell) store slot.record.val := by
  by_cases none : slot.cell.overflow = 0
  · refine ⟨store, ⟨0, fun fuel _ => ?_⟩, rfl⟩
    have short := inlineLenFor_of_le (stored.spills.mp none)
    change readValue fuel slot.cell store = _
    rw [readValue, if_pos none, stored.inlined, short, List.take_length]
    rfl
  · have parts : slot.cell.inlined.length +
        (slot.record.val.drop (inlineLenFor slot.record.val.length)).length =
        slot.cell.payloadLen.toNat := by
      rw [stored.inlined, ← List.length_append, List.take_append_drop, stored.payload]
    obtain ⟨after, same, run⟩ := readValueLoop_chain stored.chain slot.cell store
      slot.cell.inlined rfl parts
    refine ⟨after, ⟨slot.chain.length + 1, fun fuel enough => ?_⟩, same⟩
    have whole : slot.cell.inlined ++ slot.record.val.drop (inlineLenFor slot.record.val.length) =
        slot.record.val := by rw [stored.inlined, List.take_append_drop]
    have complete : ¬ slot.record.val.length ≠ slot.cell.payloadLen.toNat := by
      simp [stored.payload]
    have reserved : withCapacity slot.cell.payloadLen.toNat = .ok () := by
      rw [withCapacity, stored.payload, if_pos slot.record.property]
    change readValue fuel slot.cell store = _
    rw [readValue, if_neg none, reserved]
    refine (Exec.bind_of_ok rfl).trans ?_
    rw [Exec.bind_of_ok (run fuel (by omega)), whole, if_neg complete]
    rfl

/-- **Lookup.** Reading a rowid gives its record, or nothing when there is none. -/
theorem get_subtree {depth : Nat} {low high : Bound Int64} {id : PageId} {entries : Rows}
    {pages : List PageId} {rowid : Int64}
    (subtree : Subtree (view store) depth low high id entries pages)
    (inside : InRange low high rowid) :
    Reads (fun fuel => get fuel id rowid) store ((Entries.lookup rowid entries).map Subtype.val) := by
  induction depth generalizing low high id entries pages store with
  | zero =>
      obtain ⟨node, owned, holds, body, rfl⟩ := subtree
      obtain ⟨l, rfl⟩ := body.leaf_of_zero
      obtain ⟨_, _, ascending, slots, cells, rfl, rfl, each⟩ := body
      refine .of_succ (.getNode_bind holds fun read same => ?_)
      rcases LeafNode.search_cases rowid cells ascending with
        ⟨before, slot, after, rfl, rfl, below, above, search⟩ | ⟨before, after, rfl, below, above,
          search⟩
      · have atIndex : l.cells[before.length]? = some slot.cell := by
          rw [cells, List.map_append, List.getElem?_append_right (by simp)]
          simp
        have hit : Entries.lookup slot.cell.rowid
            ((before ++ slot :: after).map LeafSlot.entry) = some slot.record :=
          (Entries.lookup_eq_some_iff ascending).mpr (List.mem_map.mpr ⟨slot, by simp, rfl⟩)
        have stored := (each slot (by simp)).congr fun id _ => congrFun same id
        simp only [search, atIndex, Outcome.orPanic, Exec.lift_ok_bind, hit, Option.map_some]
        exact .bind (readValue_stored stored) fun between _ => .pure _
      · have miss : Entries.lookup rowid ((before ++ after).map LeafSlot.entry) = none := by
          rw [Entries.lookup_eq_none_iff]
          intro entry member
          obtain ⟨slot, inSlots, rfl⟩ := List.mem_map.mp member
          rcases List.mem_append.mp inSlots with inBefore | inAfter
          · exact (below slot inBefore).ne
          · exact (above slot inAfter).ne'
        simp only [search, miss, Option.map_none]
        exact .pure _
  | succ depth ih =>
      obtain ⟨node, owned, holds, body, rfl⟩ := subtree
      obtain ⟨n, rfl⟩ := body.interior_of_succ
      obtain ⟨pos, child, start, stop, before, held, after, pagesBefore, pagesChild, pagesAfter,
        descent, rfl, rfl⟩ := body.descent inside
      have around : Entries.lookup rowid (before ++ held ++ after) = Entries.lookup rowid held := by
        have skip : ∀ part : Rows, (∀ entry ∈ part, entry.1 ≠ rowid) →
            part.find? (fun entry => decide (entry.1 = rowid)) = none := fun part other =>
          List.find?_eq_none.mpr fun entry member => by simpa using other entry member
        simp only [Entries.lookup, List.find?_append,
          skip before fun entry member => (descent.below entry member).ne,
          skip after fun entry member => (descent.above entry member).ne', Option.none_or,
          Option.or_none]
      rw [around]
      refine .of_succ (.getNode_bind holds fun read same => ?_)
      simp only [descent.childFor]
      exact ih (descent.found.congr fun id _ => congrFun same id) descent.inside

theorem get_tree {root : PageId} {entries : Rows} {pages : List PageId}
    (tree : Tree (view store) root entries pages) (rowid : Int64) :
    Reads (fun fuel => get fuel root rowid) store
      ((Entries.lookup rowid entries).map Subtype.val) := by
  obtain ⟨depth, subtree, _⟩ := tree
  exact get_subtree subtree ⟨Bound.bot_lt_key _, Bound.key_le_top _⟩

end BTree

/-! ## Cursors -/

section Cursors

variable {view : View PageId PageData} {depth : Nat}

/-- What is still to come above a cursor's leaf: for each node of the stack the
children right of the one below it. -/
inductive Pending (view : View PageId PageData) :
    Nat → List (InteriorNode × Nat) → Rows → List PageId → Prop where
  | nil (depth : Nat) : Pending view depth [] [] []
  | cons {depth : Nat} {n : InteriorNode} {idx : Nat} {stack : List (InteriorNode × Nat)}
      {entries rest : Rows} {pages pages' : List PageId}
      (later : Forest view depth (n.children.drop (idx + 1)) entries pages)
      (above : Pending view (depth + 1) stack rest pages') :
      Pending view depth ((n, idx) :: stack) (entries ++ rest) (pages ++ pages')

/-- The rows a cursor has still to give, and a bound on the pages it has still
to visit. -/
def Remaining (view : View PageId PageData) (cursor : BTreeCursor) (rows : Rows) (size : Nat) :
    Prop :=
  ∃ here rest pages, Pending view 0 cursor.stack rest pages ∧ pages.length ≤ size ∧
    rows = here ++ rest ∧
    match cursor.leaf with
    | some (l, i) => ∃ slots : List LeafSlot, l.cells = slots.map LeafSlot.cell ∧
        here = (slots.drop i).map LeafSlot.entry ∧ ∀ slot ∈ slots, slot.Stored view
    | none => here = []

theorem BTreeCursor.childAt_mem {n : InteriorNode} {idx : Nat} (within : idx ≤ n.cells.length) :
    n.children.drop idx = BTreeCursor.childAt n idx :: n.children.drop (idx + 1) := by
  rcases Nat.lt_or_eq_of_le within with less | rfl
  · have entry : n.cells[idx]? = some n.cells[idx] := List.getElem?_eq_getElem less
    have cut : n.cells.drop idx = n.cells[idx] :: n.cells.drop (idx + 1) :=
      List.drop_eq_getElem_cons less
    have first : idx - (n.cells.map Prod.fst).length = 0 := by simp; omega
    have second : idx + 1 - (n.cells.map Prod.fst).length = 0 := by simp; omega
    simp only [InteriorNode.children, List.drop_append, first, second, ← List.map_drop, cut,
      List.map_cons, List.drop_zero, List.cons_append, BTreeCursor.childAt, entry]
  · simp [InteriorNode.children, BTreeCursor.childAt]

/-- The next child is the first of what is still to come. -/
theorem nextChild_cases {stack : List (InteriorNode × Nat)} {rest : Rows} {pages : List PageId}
    (pending : Pending view depth stack rest pages) :
    (BTreeCursor.nextChild stack = none ∧ rest = []) ∨
    ∃ depth low high child stack' entries rest' pagesChild pages',
      BTreeCursor.nextChild stack = some (child, stack') ∧
      Subtree view depth low high child entries pagesChild ∧ Pending view depth stack' rest' pages' ∧
      rest = entries ++ rest' ∧ pages.length = pagesChild.length + pages'.length := by
  induction pending with
  | nil depth => exact .inl ⟨rfl, rfl⟩
  | @cons depth n idx stack entries rest pages pages' later above ih =>
      by_cases more : idx + 1 ≤ n.cells.length
      · rw [BTreeCursor.childAt_mem more] at later
        cases later with
        | cons first others =>
          refine .inr ⟨depth, _, _, _, _, _, _, _, _, ?_, first, .cons others above, ?_, ?_⟩
          · rw [BTreeCursor.nextChild, if_pos more]
          · rw [List.append_assoc]
          · simp only [List.length_append]
            omega
      · have none : n.children.drop (idx + 1) = [] := by
          rw [List.drop_eq_nil_iff, InteriorNode.children]
          simp only [List.length_append, List.length_map, List.length_singleton]
          omega
        rw [none] at later
        cases later
        have skip : BTreeCursor.nextChild ((n, idx) :: stack) = BTreeCursor.nextChild stack := by
          rw [BTreeCursor.nextChild, if_neg more]
        rw [skip]
        exact ih

end Cursors

namespace BTreeCursor

variable {σ : Type} [PageSource σ] [MapSource σ] {seen : View PageId PageData}

open BTree (Reads)

/-! ### Seeking -/

/-- Rows from a rowid on; the rows before its child are below it, the rows
behind are above. -/
theorem filter_descent {rowid : Int64} (before held after : Rows)
    (below : ∀ entry ∈ before, entry.1 < rowid) (above : ∀ entry ∈ after, rowid < entry.1) :
    (before ++ held ++ after).filter (fun entry => decide (rowid ≤ entry.1)) =
      held.filter (fun entry => decide (rowid ≤ entry.1)) ++ after := by
  have none : before.filter (fun entry => decide (rowid ≤ entry.1)) = [] := by
    rw [List.filter_eq_nil_iff]
    intro entry member
    simpa using below entry member
  have all : after.filter (fun entry => decide (rowid ≤ entry.1)) = after := by
    rw [List.filter_eq_self]
    exact fun entry member => decide_eq_true (above entry member).le
  rw [List.filter_append, List.filter_append, none, all, List.nil_append]

/-- In a leaf the rows from a rowid on start at its position. -/
theorem drop_position {l : LeafNode} {slots : List LeafSlot} (rowid : Int64)
    (cells : l.cells = slots.map LeafSlot.cell)
    (ascending : Ascending (slots.map LeafSlot.entry)) :
    (slots.map LeafSlot.entry).filter (fun entry => decide (rowid ≤ entry.1)) =
      (slots.drop (position l rowid)).map LeafSlot.entry := by
  rcases LeafNode.search_cases rowid cells ascending with
    ⟨before, slot, after, rfl, same, below, above, search⟩ | ⟨before, after, rfl, below, above, search⟩
  · have here : [slot.entry].filter (fun entry => decide (rowid ≤ entry.1)) = [slot.entry] := by
      simp [LeafSlot.entry, same]
    have whole := filter_descent (before.map LeafSlot.entry) [slot.entry]
      (after.map LeafSlot.entry) (by simpa [LeafSlot.entry] using below)
      (by simpa [LeafSlot.entry] using above)
    rw [here] at whole
    simpa [position, search] using whole
  · have whole := filter_descent (before.map LeafSlot.entry) [] (after.map LeafSlot.entry)
      (by simpa [LeafSlot.entry] using below) (by simpa [LeafSlot.entry] using above)
    simpa [position, search] using whole

/-- The descent of `seek` ends before the first row that is not below the rowid. -/
theorem seek_subtree {depth : Nat} {low high : Bound Int64} {id : PageId} {entries rest : Rows}
    {pages pages' : List PageId} {rowid : Int64} {stack : List (InteriorNode × Nat)}
    (subtree : Subtree seen depth low high id entries pages) (inside : InRange low high rowid)
    (pending : Pending seen depth stack rest pages') :
    ∃ cursor size, Remaining seen cursor
        (entries.filter (fun entry => decide (rowid ≤ entry.1)) ++ rest) size ∧
      ∀ store : σ, view store = seen →
        Reads (fun fuel => seekLoop rowid fuel id stack) store cursor := by
  induction depth generalizing low high id entries pages pages' rest stack with
  | zero =>
      obtain ⟨node, owned, holds, body, rfl⟩ := subtree
      obtain ⟨l, rfl⟩ := body.leaf_of_zero
      obtain ⟨_, _, ascending, slots, cells, rfl, rfl, each⟩ := body
      refine ⟨⟨stack, some (l, position l rowid)⟩, pages'.length, ⟨_, rest, pages', pending, le_rfl,
        rfl, slots, cells, drop_position rowid cells ascending, each⟩, ?_⟩
      rintro store rfl
      exact .of_succ (.getNode_bind holds fun read same => .pure _)
  | succ depth ih =>
      obtain ⟨node, owned, holds, body, rfl⟩ := subtree
      obtain ⟨n, rfl⟩ := body.interior_of_succ
      obtain ⟨pos, child, start, stop, before, held, after, pagesBefore, pagesChild, pagesAfter,
        descent, rfl, rfl⟩ := body.descent inside
      obtain ⟨cursor, size, remaining, reads⟩ := ih descent.found descent.inside
        (.cons descent.later pending)
      rw [← List.append_assoc, ← filter_descent before held after descent.below descent.above]
        at remaining
      refine ⟨cursor, size, remaining, ?_⟩
      rintro store rfl
      refine .of_succ (.getNode_bind holds fun read same => ?_)
      simp only [descent.position, descent.childAt]
      exact reads read same

/-- The descent to the first leaf of a subtree. -/
theorem descendLeftmost_subtree {depth : Nat} {low high : Bound Int64} {id : PageId}
    {entries rest : Rows} {pages pages' : List PageId} {stack : List (InteriorNode × Nat)}
    (subtree : Subtree seen depth low high id entries pages)
    (pending : Pending seen depth stack rest pages') :
    ∃ cursor size, Remaining seen cursor (entries ++ rest) size ∧
      size < pages.length + pages'.length ∧
      ∀ store : σ, view store = seen →
        Reads (fun fuel => descendLeftmost fuel id stack) store cursor := by
  induction depth generalizing low high id entries pages pages' rest stack with
  | zero =>
      obtain ⟨node, owned, holds, body, rfl⟩ := subtree
      obtain ⟨l, rfl⟩ := body.leaf_of_zero
      obtain ⟨_, _, ascending, slots, cells, rfl, rfl, each⟩ := body
      refine ⟨⟨stack, some (l, 0)⟩, pages'.length, ⟨_, rest, pages', pending, le_rfl,
        rfl, slots, cells, rfl, each⟩, by simp only [List.length_cons]; omega, ?_⟩
      rintro store rfl
      exact .of_succ (.getNode_bind holds fun read same => .pure _)
  | succ depth ih =>
      obtain ⟨node, owned, holds, body, rfl⟩ := subtree
      obtain ⟨n, rfl⟩ := body.interior_of_succ
      obtain ⟨middle, before, last, nodes, nodes', spans, right, rfl, rfl⟩ := body_interior.mp body
      have forest : Forest seen depth (n.children.drop 0) (before ++ last) (nodes ++ nodes') :=
        forest_of_spans spans right
      rw [childAt_mem (Nat.zero_le _)] at forest
      generalize before ++ last = rows at forest ⊢
      generalize nodes ++ nodes' = owned at forest ⊢
      cases forest with
      | cons first others =>
        obtain ⟨cursor, size, remaining, less, reads⟩ := ih first (.cons others pending)
        rw [← List.append_assoc] at remaining
        refine ⟨cursor, size, remaining, ?_, ?_⟩
        · simp only [List.length_append, List.length_cons] at less ⊢
          omega
        · rintro store rfl
          exact .of_succ (.getNode_bind holds fun read same => reads read same)

/-! ### Stepping -/

omit [MapSource σ] in
/-- Past the cells of its leaf, a cursor goes on with the next child. -/
theorem next_child {cursor : BTreeCursor} {fuel : Nat}
    (spent : (cursor.leaf.bind fun (leaf, i) =>
      (leaf.cells[i]?).map fun cell => (leaf, i, cell)) = none) :
    (next (fuel + 1) cursor : Exec σ StorageError (Option (Int64 × Bytes) × BTreeCursor)) =
      match nextChild cursor.stack with
      | none => return (none, ⟨[], none⟩)
      | some (child, stack) => descendLeftmost fuel child stack >>= next fuel := by
  simp only [next, spent] <;> rfl

/-- A step gives the first of the remaining rows, or says that there is none. -/
theorem next_remaining {cursor : BTreeCursor} {rows : Rows} {size : Nat}
    (remaining : Remaining seen cursor rows size) :
    ∃ cursor' size', Remaining seen cursor' rows.tail size' ∧
      ∀ store : σ, view store = seen →
        Reads (fun fuel => next fuel cursor) store
          (rows.head?.map fun row => (row.1, row.2.val), cursor') := by
  induction size using Nat.strong_induction_on generalizing cursor rows with
  | h size ih =>
    obtain ⟨here, rest, pages, pending, bound, rfl, leaf⟩ := remaining
    -- past the leaf, whose rows are all given
    have pastLeaf : here = [] → (cursor.leaf.bind fun (leaf, i) =>
        (leaf.cells[i]?).map fun cell => (leaf, i, cell)) = none →
        ∃ cursor' size', Remaining seen cursor' (here ++ rest).tail size' ∧
          ∀ store : σ, view store = seen →
            Reads (fun fuel => next fuel cursor) store
              ((here ++ rest).head?.map fun row => (row.1, row.2.val), cursor') := by
      rintro rfl spent
      rcases nextChild_cases pending with ⟨ended, rfl⟩ |
        ⟨depth, low, high, child, stack, entries, rest', pagesChild, pages', found, subtree, pending',
          rfl, lengths⟩
      · refine ⟨⟨[], none⟩, 0, ⟨[], [], [], .nil 0, le_rfl, rfl, rfl⟩, fun store same => .of_succ ?_⟩
        simp only [next_child spent, ended]
        exact .pure _
      · obtain ⟨between, size', remaining', less, descends⟩ :=
          descendLeftmost_subtree (σ := σ) subtree pending'
        obtain ⟨cursor', size'', remaining'', steps⟩ := ih size' (by omega) remaining'
        refine ⟨cursor', size'', remaining'', fun store same => .of_succ ?_⟩
        simp only [next_child spent, found]
        exact (descends store same).bind fun after same' => steps after (same'.trans same)
    cases position : cursor.leaf with
    | none =>
        rw [position] at leaf
        exact pastLeaf leaf (by rw [position]; rfl)
    | some place =>
        obtain ⟨l, i⟩ := place
        rw [position] at leaf
        obtain ⟨slots, cells, rfl, each⟩ := leaf
        have atIndex : l.cells[i]? = (slots.drop i).head?.map LeafSlot.cell := by
          rw [cells, List.getElem?_map, List.head?_drop]
        cases tail : slots.drop i with
        | nil =>
            rw [tail] at atIndex pastLeaf
            exact pastLeaf rfl (by simp [position, atIndex])
        | cons slot more =>
            rw [tail, List.head?_cons, Option.map_some] at atIndex
            have stored := each slot (List.mem_of_mem_drop (tail ▸ List.mem_cons_self))
            have behind : slots.drop (i + 1) = more := by
              rw [← List.drop_drop, tail, List.drop_one, List.tail_cons]
            refine ⟨{ cursor with leaf := some (l, i + 1) }, size,
              ⟨_, rest, pages, pending, bound, rfl, slots, cells, by rw [behind], each⟩, ?_⟩
            rintro store rfl
            refine .of_succ ?_
            simp only [next, position, Option.bind_some, atIndex, Option.map_some]
            exact (BTree.readValue_stored stored).bind fun after same => .pure _

/-- **Scanning.** A cursor gives its remaining rows, each once and in order. -/
theorem collect_remaining {rows : Rows} {cursor : BTreeCursor} {size : Nat}
    (remaining : Remaining seen cursor rows size) :
    ∀ store : σ, view store = seen →
      Reads (fun fuel => collect fuel cursor) store (rows.map fun row => (row.1, row.2.val)) := by
  induction rows generalizing cursor size with
  | nil =>
      intro store same
      obtain ⟨cursor', _, _, steps⟩ := next_remaining (σ := σ) remaining
      refine .of_succ ((steps store same).bind fun after same' => ?_)
      exact .pure _
  | cons row rows ih =>
      intro store same
      obtain ⟨cursor', _, remaining', steps⟩ := next_remaining (σ := σ) remaining
      refine .of_succ ((steps store same).bind fun after same' => ?_)
      exact (ih remaining' after (same'.trans same)).bind fun _ _ => .pure _

/-- All rows from a rowid on, from the root. -/
theorem collect_seek {root : PageId} {entries : Rows} {pages : List PageId} {store : σ}
    (tree : BTree.Tree (view store) root entries pages) (rowid : Int64) :
    Reads (fun fuel => do collect fuel (← seek fuel root rowid)) store
      ((entries.filter fun entry => decide (rowid ≤ entry.1)).map fun row => (row.1, row.2.val)) := by
  obtain ⟨depth, subtree, _⟩ := tree
  obtain ⟨cursor, size, remaining, seeks⟩ := seek_subtree (σ := σ) subtree
    ⟨Bound.bot_lt_key rowid, Bound.key_le_top _⟩ (.nil depth)
  rw [List.append_nil] at remaining
  exact (seeks store rfl).bind fun after same => collect_remaining remaining after same

end BTreeCursor

end Squrust.Core
