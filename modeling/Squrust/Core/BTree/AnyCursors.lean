import Squrust.Core.BTree.AnyPages
import Squrust.Foundation.Worklist

/-!
# Cursors over pages of any content

A cursor that is behind the last cell of its leaf searches the children that are
left in its stack: a leaf without cells is left out, the children of an interior
node take its place, and it stops at a leaf with a cell or at a page that cannot
be read. So it ends exactly when this search does (`next_finishes_iff`).

Together with the loops that follow one link, these are all the ways in which
a damaged file can keep a read from ending (`reads_finish_iff`).
-/

set_option autoImplicit false

namespace Squrust.Core

open Squrust.Foundation

open Exec (Answered Finishes SteadyAt)

open Relation (ReflTransGen TransGen)

namespace PageContents

variable (pages : PageContents)

/-- What a page is to a cursor that searches for the next cell. -/
def look (id : PageId) : Look PageId :=
  match pages.nodeAt id with
  | none => .stop
  | some (.leaf l) => if l.cells.isEmpty then .nothing else .stop
  | some (.interior n) => .branch n.children

/-- The first cell of a leaf. -/
def FirstCell (id : PageId) (cell : LeafCell) : Prop :=
  ∃ l rest, pages.nodeAt id = some (.leaf l) ∧ l.cells = cell :: rest

end PageContents

namespace BTreeCursor

/-- The cell under the cursor. -/
def cell? (cursor : BTreeCursor) : Option LeafCell := cursor.leaf.bind fun place => place.1.cells[place.2]?

/-- The children that are left, the lowest first. -/
def pending (stack : List (InteriorNode × Nat)) : List PageId :=
  stack.flatMap fun place => place.1.children.drop (place.2 + 1)

/-- The leaf of the cursor is one of the pages. -/
def Among (pages : PageContents) (cursor : BTreeCursor) : Prop :=
  ∀ place ∈ cursor.leaf, ∃ id, pages.nodeAt id = some (.leaf place.1)

/-- The next cell can be read: the one under the cursor, or the one it finds when it searches the
children that are left, and that search comes to no page again. -/
def NextEnds (pages : PageContents) (cursor : BTreeCursor) : Prop :=
  (∀ cell, cursor.cell? = some cell → pages.ValueEnds cell) ∧
    (cursor.cell? = none → ∀ id, Search.ComesTo pages.look (pending cursor.stack) id →
      ¬ TransGen (Search.Visits pages.look) id id ∧
        ∀ cell, pages.FirstCell id cell → pages.ValueEnds cell)

/-! ## Children -/

theorem length_children (n : InteriorNode) : n.children.length = n.cells.length + 1 := by
  simp [InteriorNode.children]

/-- The lowest node with a further child has the first one that is left. -/
theorem pending_of_nextChild {stack : List (InteriorNode × Nat)} :
    (nextChild stack = none → pending stack = []) ∧
      ∀ child stack', nextChild stack = some (child, stack') →
        pending stack = child :: pending stack' := by
  induction stack with
  | nil => exact ⟨fun _ => rfl, fun _ _ absurd => by cases absurd⟩
  | cons place stack ih =>
      obtain ⟨n, idx⟩ := place
      rw [nextChild, pending, List.flatMap_cons]
      by_cases more : idx + 1 ≤ n.cells.length
      · rw [if_pos more]
        refine ⟨fun absurd => (by cases absurd), fun child stack' same => ?_⟩
        obtain ⟨rfl, rfl⟩ := Prod.mk.inj (Option.some.inj same)
        rw [childAt_mem more, pending, List.flatMap_cons, List.cons_append]
      · rw [if_neg more, List.drop_eq_nil_of_le (by rw [length_children]; dsimp only; omega), List.nil_append]
        exact ih

/-- A node that is descended into is in the stack, and its children are left. -/
theorem pending_push (n : InteriorNode) (stack : List (InteriorNode × Nat)) :
    childAt n 0 :: pending ((n, 0) :: stack) = n.children ++ pending stack := by
  have split := childAt_mem (Nat.zero_le n.cells.length)
  rw [List.drop_zero] at split
  rw [split, pending, List.flatMap_cons, List.cons_append]
  rfl

/-! ## The search -/

section

variable {σ : Type} [PageSource σ] [StaticSource σ] {pages : PageContents}

/-- The search ends, and the record of the cell where it stops can be read. -/
def SearchEnds (pages : PageContents) (list : List PageId) : Prop :=
  Search.Finishes pages.look list ∧ ∀ id cell, Search.ComesTo pages.look list id →
    pages.FirstCell id cell → pages.ValueEnds cell

theorem look_of_firstCell {id : PageId} {cell : LeafCell} (first : pages.FirstCell id cell) :
    pages.look id = .stop := by
  obtain ⟨l, rest, isLeaf, cells⟩ := first
  rw [PageContents.look, isLeaf]
  simp [cells]

theorem searchEnds_of_step {list next : List PageId} (stepped : Search.step pages.look list = some next) :
    SearchEnds pages list ↔ SearchEnds pages next := by
  unfold SearchEnds
  rw [Search.finishes_of_step stepped]
  refine and_congr_right fun _ => forall_congr' fun id => forall_congr' fun cell => ?_
  constructor
  · intro value comes first
    exact value ((Search.comesTo_of_step stepped (look_of_firstCell first)).mpr comes) first
  · intro value comes first
    exact value ((Search.comesTo_of_step stepped (look_of_firstCell first)).mp comes) first

theorem searchEnds_of_stop {id : PageId} {rest : List PageId} (stops : pages.look id = .stop) :
    SearchEnds pages (id :: rest) ↔ ∀ cell, pages.FirstCell id cell → pages.ValueEnds cell := by
  have stopped : Search.step pages.look (id :: rest) = none := by rw [Search.step, stops]
  constructor
  · rintro ⟨-, value⟩ cell first
    exact value id cell ((Search.comesTo_of_stop stops).mpr rfl) first
  · intro value
    refine ⟨Search.finishes_of_step_none stopped, fun other cell comes first => ?_⟩
    obtain rfl := (Search.comesTo_of_stop stops).mp comes
    exact value cell first

theorem searchEnds_nil : SearchEnds pages [] :=
  ⟨Search.finishes_of_step_none rfl, fun _ _ comes _ => (Search.not_comesTo_nil comes).elim⟩

theorem searchEnds_iff {list : List PageId} :
    SearchEnds pages list ↔ ∀ id, Search.ComesTo pages.look list id →
      ¬ TransGen (Search.Visits pages.look) id id ∧
        ∀ cell, pages.FirstCell id cell → pages.ValueEnds cell := by
  rw [SearchEnds, Search.finishes_iff]
  constructor
  · rintro ⟨noLoop, values⟩ id comes
    exact ⟨noLoop id comes, fun cell => values id cell comes⟩
  · intro both
    exact ⟨fun id comes => (both id comes).1, fun id cell comes => (both id comes).2 cell⟩

/-! ## The code of the cursor -/

omit [StaticSource σ] in
/-- Without a cell under it a cursor only looks at its stack. -/
theorem next_of_no_cell {cursor : BTreeCursor} (none' : cursor.cell? = none) (fuel : Nat) :
    (next fuel cursor : Exec σ StorageError (Option (Int64 × Bytes) × BTreeCursor)) =
      next fuel ⟨cursor.stack, none⟩ := by
  cases fuel with
  | zero => rfl
  | succ fuel =>
      obtain ⟨stack, leaf⟩ := cursor
      cases leaf with
      | none => rfl
      | some place =>
          obtain ⟨l, i⟩ := place
          have missing : l.cells[i]? = none := none'
          simp only [next, Option.bind_some, Option.bind_none, missing, Option.map_none]

omit [StaticSource σ] in
theorem next_of_cell {cursor : BTreeCursor} {cell : LeafCell} (here : cursor.cell? = some cell)
    (fuel : Nat) {store : σ} :
    Answered ((next (fuel + 1) cursor : Exec σ StorageError (Option (Int64 × Bytes) × BTreeCursor)) store) ↔
      Answered ((BTree.readValue fuel cell : Exec σ StorageError Bytes) store) := by
  obtain ⟨stack, leaf⟩ := cursor
  cases leaf with
  | none => cases here
  | some place =>
      obtain ⟨l, i⟩ := place
      have there : l.cells[i]? = some cell := here
      simp only [next, Option.bind_some, there, Option.map_some]
      rw [Exec.answered_bind_iff]
      exact and_iff_left fun _ _ _ => Exec.answered_ok _ _

omit [StaticSource σ] in
theorem next_of_stack (stack : List (InteriorNode × Nat)) (fuel : Nat) {store : σ} :
    (nextChild stack = none →
      Answered ((next (fuel + 1) ⟨stack, none⟩ :
        Exec σ StorageError (Option (Int64 × Bytes) × BTreeCursor)) store)) ∧
    ∀ child stack', nextChild stack = some (child, stack') →
      (next (fuel + 1) ⟨stack, none⟩ : Exec σ StorageError (Option (Int64 × Bytes) × BTreeCursor)) =
        descendLeftmost fuel child stack' >>= next fuel := by
  simp only [next, Option.bind_none]
  constructor
  · intro last
    rw [last]
    exact Exec.answered_ok _ _
  · intro child stack' further
    rw [further]

/-- How the descent to the first leaf of a page goes, and what the cursor does there. -/
theorem visit_cases (parses : pages.Parses) {id : PageId} {stack : List (InteriorNode × Nat)} {store : σ}
    (same : contents store = pages) :
    (pages.nodeAt id = none ∧ ∀ fuel, ∃ e after,
      (descendLeftmost (fuel + 1) id stack : Exec σ StorageError BTreeCursor) store = .error (.error e) after) ∨
    (∃ n after, pages.nodeAt id = some (.interior n) ∧ contents after = pages ∧ ∀ fuel,
      (descendLeftmost (fuel + 1) id stack : Exec σ StorageError BTreeCursor) store =
        descendLeftmost fuel (childAt n 0) ((n, 0) :: stack) after) ∨
    ∃ l after, pages.nodeAt id = some (.leaf l) ∧ contents after = pages ∧ ∀ fuel,
      (descendLeftmost (fuel + 1) id stack : Exec σ StorageError BTreeCursor) store =
        .ok ⟨stack, some (l, 0)⟩ after := by
  subst same
  cases isNode : PageContents.nodeAt (contents store) id with
  | none =>
      obtain ⟨e, after, failed⟩ := BTree.getNode_none parses isNode
      exact Or.inl ⟨rfl, fun fuel => ⟨e, after, by rw [descendLeftmost, Exec.bind_of_error failed]⟩⟩
  | some node =>
      obtain ⟨after, run, keeps⟩ := BTree.getNode_some isNode
      cases node with
      | interior n =>
          exact Or.inr (Or.inl ⟨n, after, rfl, keeps, fun fuel => by
            rw [descendLeftmost, Exec.bind_of_ok run]⟩)
      | leaf l =>
          exact Or.inr (Or.inr ⟨l, after, rfl, keeps, fun fuel => by
            rw [descendLeftmost, Exec.bind_of_ok run]
            rfl⟩)

omit [StaticSource σ] in
theorem steady_visit (id : PageId) (stack : List (InteriorNode × Nat)) (fuel : Nat) :
    SteadyAt (fun fuel => (descendLeftmost fuel id stack >>= next fuel :
      Exec σ StorageError (Option (Int64 × Bytes) × BTreeCursor))) fuel :=
  SteadyAt.bind (BTree.steady_descendLeftmost fuel id stack) fun cursor => BTree.steady_next fuel cursor

theorem look_interior {id : PageId} {n : InteriorNode} (isNode : pages.nodeAt id = some (.interior n)) :
    pages.look id = .branch n.children := by rw [PageContents.look, isNode]

theorem look_none {id : PageId} (missing : pages.nodeAt id = none) : pages.look id = .stop := by
  rw [PageContents.look, missing]

theorem look_empty {id : PageId} {l : LeafNode} (isLeaf : pages.nodeAt id = some (.leaf l))
    (empty : l.cells = []) : pages.look id = .nothing := by
  rw [PageContents.look, isLeaf]
  simp [empty]

theorem firstCell_iff {id : PageId} {l : LeafNode} {first cell : LeafCell} {rest : List LeafCell}
    (isLeaf : pages.nodeAt id = some (.leaf l)) (cells : l.cells = first :: rest) :
    pages.FirstCell id cell ↔ cell = first := by
  constructor
  · rintro ⟨l', rest', isLeaf', cells'⟩
    obtain rfl := Node.leaf.inj (Option.some.inj (isLeaf.symm.trans isLeaf'))
    exact (List.cons.inj (cells'.symm.trans cells)).1
  · rintro rfl
    exact ⟨l, rest, isLeaf, cells⟩

/-- A cursor that answered has searched to the end, if the cursors at the leaves do. -/
theorem searchEnds_of_visit (parses : pages.Parses) {budget : Nat}
    (answers : ∀ (stack : List (InteriorNode × Nat)) (store : σ), contents store = pages →
      Answered ((next budget ⟨stack, none⟩ :
        Exec σ StorageError (Option (Int64 × Bytes) × BTreeCursor)) store) → SearchEnds pages (pending stack))
    {fuel : Nat} {id : PageId} {stack : List (InteriorNode × Nat)} {store : σ}
    (same : contents store = pages)
    (answered : Answered ((descendLeftmost fuel id stack >>= next budget :
      Exec σ StorageError (Option (Int64 × Bytes) × BTreeCursor)) store)) :
    SearchEnds pages (id :: pending stack) := by
  induction fuel generalizing id stack store with
  | zero => exact (Exec.not_answered_outOfFuel _ (Exec.answered_bind_iff.mp answered).1).elim
  | succ fuel ih =>
      obtain ⟨-, later⟩ := Exec.answered_bind_iff.mp answered
      rcases @visit_cases σ _ _ pages parses id stack _ same with
        ⟨missing, -⟩ | ⟨n, after, isNode, keeps, run⟩ | ⟨l, after, isLeaf, keeps, run⟩
      · refine (searchEnds_of_stop (look_none missing)).mpr fun cell first => ?_
        obtain ⟨l, rest, isLeaf, -⟩ := first
        rw [missing] at isLeaf
        cases isLeaf
      · have below := @ih (childAt n 0) ((n, 0) :: stack) _ keeps (by
          refine Exec.answered_bind_iff.mpr ⟨?_, fun cursor reached returned => ?_⟩
          · rw [← run]
            exact (Exec.answered_bind_iff.mp answered).1
          · exact later cursor reached ((run fuel).trans returned))
        rw [pending_push] at below
        refine (searchEnds_of_step ?_).mpr below
        rw [Search.step, look_interior isNode]
      · have there := later _ _ (run fuel)
        cases cells : l.cells with
        | nil =>
            rw [next_of_no_cell (by simp [cell?, cells])] at there
            refine (searchEnds_of_step ?_).mpr (answers stack after keeps there)
            rw [Search.step, look_empty isLeaf cells]
        | cons first rest =>
            have isFirst := @firstCell_iff pages id l first
            refine (searchEnds_of_stop (look_of_firstCell ⟨l, rest, isLeaf, cells⟩)).mpr fun cell is => ?_
            obtain rfl := (isFirst isLeaf cells).mp is
            cases budget with
            | zero => exact (Exec.not_answered_outOfFuel _ there).elim
            | succ budget =>
                have read := (@next_of_cell σ _ _ cell (by simp [cell?, cells]) budget _).mp there
                have has : PageContents.HasCell (contents after) cell := by
                  rw [keeps]
                  exact ⟨id, l, isLeaf, by rw [cells]; exact List.mem_cons_self⟩
                rw [← keeps]
                exact (BTree.readValue_answers_iff has).mp ⟨budget, read⟩

theorem searchEnds_of_next (parses : pages.Parses) {fuel : Nat} {stack : List (InteriorNode × Nat)}
    {store : σ} (same : contents store = pages)
    (answered : Answered ((next fuel ⟨stack, none⟩ :
      Exec σ StorageError (Option (Int64 × Bytes) × BTreeCursor)) store)) :
    SearchEnds pages (pending stack) := by
  induction fuel generalizing stack store with
  | zero => exact (Exec.not_answered_outOfFuel _ answered).elim
  | succ fuel ih =>
      cases further : nextChild stack with
      | none =>
          rw [pending_of_nextChild.1 further]
          exact searchEnds_nil
      | some place =>
          obtain ⟨child, stack'⟩ := place
          rw [pending_of_nextChild.2 child stack' further]
          rw [(@next_of_stack σ _ stack fuel store).2 child stack' further] at answered
          exact searchEnds_of_visit parses (fun stack store same => ih same) same answered

/-- The cursor answers when the search ends: at the children that are left, and from a page that it
descends to. -/
theorem answers_of_searchEnds (parses : pages.Parses) {list : List PageId} (ends : SearchEnds pages list) :
    (∀ (id : PageId) (stack : List (InteriorNode × Nat)) (store : σ), contents store = pages →
      id :: pending stack = list → ∃ fuel, Answered ((descendLeftmost fuel id stack >>= next fuel :
        Exec σ StorageError (Option (Int64 × Bytes) × BTreeCursor)) store)) ∧
    ∀ (stack : List (InteriorNode × Nat)) (store : σ), contents store = pages → pending stack = list →
      ∃ fuel, Answered ((next fuel ⟨stack, none⟩ :
        Exec σ StorageError (Option (Int64 × Bytes) × BTreeCursor)) store) := by
  have finishes := ends.1
  induction finishes with
  | intro list _ ih =>
    have visits : ∀ (id : PageId) (stack : List (InteriorNode × Nat)) (store : σ),
        contents store = pages → id :: pending stack = list →
        ∃ fuel, Answered ((descendLeftmost fuel id stack >>= next fuel :
          Exec σ StorageError (Option (Int64 × Bytes) × BTreeCursor)) store) := by
      rintro id stack store same rfl
      rcases @visit_cases σ _ _ pages parses id stack _ same with
        ⟨missing, failed⟩ | ⟨n, after, isNode, keeps, run⟩ | ⟨l, after, isLeaf, keeps, run⟩
      · obtain ⟨e, after, failed⟩ := failed 0
        exact ⟨1, by rw [Exec.bind_of_error failed]; exact Exec.answered_error e after⟩
      · have stepped : Search.step pages.look (id :: pending stack) = some (n.children ++ pending stack) := by
          rw [Search.step, look_interior isNode]
        have below := (searchEnds_of_step stepped).mp ends
        obtain ⟨fuel, answered⟩ := (ih _ stepped below).1 (childAt n 0) ((n, 0) :: stack) after keeps
          (pending_push n stack)
        obtain ⟨descended, later⟩ := Exec.answered_bind_iff.mp answered
        refine ⟨fuel + 1, Exec.answered_bind_iff.mpr ⟨by rwa [run], fun cursor reached returned => ?_⟩⟩
        rw [run] at returned
        exact (BTree.steady_next fuel cursor).answered (Nat.le_succ fuel) (later cursor reached returned)
      · cases cells : l.cells with
        | nil =>
            have stepped : Search.step pages.look (id :: pending stack) = some (pending stack) := by
              rw [Search.step, look_empty isLeaf cells]
            have behind := (searchEnds_of_step stepped).mp ends
            obtain ⟨fuel, answered⟩ := (ih _ stepped behind).2 stack after keeps rfl
            refine ⟨fuel + 1, ?_⟩
            rw [Exec.bind_of_ok (run fuel), next_of_no_cell (by simp [cell?, cells])]
            exact (BTree.steady_next fuel _).answered (Nat.le_succ fuel) answered
        | cons first rest =>
            have isFirst : pages.FirstCell id first := ⟨l, rest, isLeaf, cells⟩
            have value := (searchEnds_of_stop (look_of_firstCell isFirst)).mp ends first isFirst
            have has : PageContents.HasCell (contents after) first := by
              rw [keeps]
              exact ⟨id, l, isLeaf, by rw [cells]; exact List.mem_cons_self⟩
            rw [← keeps] at value
            obtain ⟨fuel, answered⟩ := (BTree.readValue_answers_iff has).mpr value
            refine ⟨fuel + 1, ?_⟩
            rw [Exec.bind_of_ok (run fuel)]
            exact (@next_of_cell σ _ _ first (by simp [cell?, cells]) fuel _).mpr answered
    refine ⟨visits, ?_⟩
    rintro stack store same rfl
    cases further : nextChild stack with
    | none => exact ⟨1, (next_of_stack stack 0).1 further⟩
    | some place =>
        obtain ⟨child, stack'⟩ := place
        obtain ⟨fuel, answered⟩ := visits child stack' store same
          (pending_of_nextChild.2 child stack' further).symm
        refine ⟨fuel + 1, ?_⟩
        rwa [(@next_of_stack σ _ stack fuel store).2 child stack' further]

/-- **Cursors.** The next row is found exactly when the search for it comes to no page again, and
the record at its end can be read. -/
theorem next_finishes_iff {store : σ} (parses : PageContents.Parses (contents store)) {cursor : BTreeCursor}
    (among : cursor.Among (contents store)) :
    Finishes (fun fuel => (next fuel cursor :
      Exec σ StorageError (Option (Int64 × Bytes) × BTreeCursor))) store ↔
      cursor.NextEnds (contents store) := by
  rw [Exec.finishes_iff_exists fun fuel => BTree.steady_next fuel cursor, NextEnds]
  cases here : cursor.cell? with
  | some cell =>
      have has : PageContents.HasCell (contents store) cell := by
        obtain ⟨place, isPlace, there⟩ := Option.bind_eq_some_iff.mp here
        obtain ⟨id, isLeaf⟩ := among place isPlace
        exact ⟨id, place.1, isLeaf, List.mem_of_getElem? there⟩
      have value := BTree.readValue_answers_iff has
      constructor
      · rintro ⟨fuel, answered⟩
        refine ⟨fun other same => ?_, fun absurd => by cases absurd⟩
        obtain rfl := Option.some.inj same
        cases fuel with
        | zero => exact (Exec.not_answered_outOfFuel _ answered).elim
        | succ fuel => exact value.mp ⟨fuel, (next_of_cell here fuel).mp answered⟩
      · rintro ⟨ends, -⟩
        obtain ⟨fuel, answered⟩ := value.mpr (ends cell rfl)
        exact ⟨fuel + 1, (next_of_cell here fuel).mpr answered⟩
  | none =>
      constructor
      · rintro ⟨fuel, answered⟩
        refine ⟨fun cell absurd => (by cases absurd), fun _ => searchEnds_iff.mp ?_⟩
        rw [next_of_no_cell here] at answered
        exact searchEnds_of_next parses rfl answered
      · rintro ⟨-, ends⟩
        obtain ⟨fuel, answered⟩ := (answers_of_searchEnds parses (searchEnds_iff.mpr (ends rfl))).2
          cursor.stack store rfl rfl
        exact ⟨fuel, by rwa [next_of_no_cell here]⟩

/-! ## The cursors there are -/

/-- A seek over the pages, and the cursors it is moved to, stay on their leaves. -/
theorem among_of_seekLoop (parses : pages.Parses) {rowid : Int64} {fuel : Nat} {cur : PageId}
    {stack : List (InteriorNode × Nat)} {store after : σ} {cursor : BTreeCursor}
    (same : contents store = pages)
    (ran : (seekLoop rowid fuel cur stack : Exec σ StorageError BTreeCursor) store = .ok cursor after) :
    cursor.Among pages := by
  induction fuel generalizing cur stack store with
  | zero => cases ran
  | succ fuel ih =>
      obtain ⟨node, reached, read, ran⟩ := Exec.bind_eq_ok.mp ran
      cases isNode : pages.nodeAt cur with
      | none =>
          have missing : PageContents.nodeAt (contents store) cur = none := by rwa [same]
          obtain ⟨e, failed, stopped⟩ := BTree.getNode_none (by rwa [same]) missing
          rw [stopped] at read
          cases read
      | some node' =>
          have held : PageContents.nodeAt (contents store) cur = some node' := by rwa [same]
          obtain ⟨reached', read', keeps⟩ := BTree.getNode_some held
          obtain ⟨rfl, rfl⟩ := EStateM.Result.ok.inj (read'.symm.trans read)
          cases node' with
          | interior n => exact ih (keeps.trans same) ran
          | leaf l =>
              obtain ⟨rfl, -⟩ := EStateM.Result.ok.inj ran
              rintro place isPlace
              obtain rfl := Option.some.inj isPlace
              exact ⟨cur, isNode⟩

theorem descendLeftmost_among (parses : pages.Parses) {fuel : Nat} {cur : PageId}
    {stack : List (InteriorNode × Nat)} {store after : σ} {cursor : BTreeCursor}
    (same : contents store = pages)
    (ran : (descendLeftmost fuel cur stack : Exec σ StorageError BTreeCursor) store = .ok cursor after) :
    cursor.Among pages ∧ contents after = pages := by
  induction fuel generalizing cur stack store with
  | zero => cases ran
  | succ fuel ih =>
      rcases @visit_cases σ _ _ pages parses cur stack _ same with
        ⟨-, failed⟩ | ⟨n, reached, -, keeps, run⟩ | ⟨l, reached, isLeaf, keeps, run⟩
      · obtain ⟨e, reached, failed⟩ := failed fuel
        rw [failed] at ran
        cases ran
      · rw [run] at ran
        exact ih keeps ran
      · rw [run] at ran
        obtain ⟨rfl, rfl⟩ := EStateM.Result.ok.inj ran
        refine ⟨?_, keeps⟩
        rintro place isPlace
        obtain rfl := Option.some.inj isPlace
        exact ⟨cur, isLeaf⟩

theorem among_of_next (parses : pages.Parses) {fuel : Nat} {store after : σ} {cursor moved : BTreeCursor}
    {row : Option (Int64 × Bytes)} (same : contents store = pages) (among : cursor.Among pages)
    (ran : (next fuel cursor : Exec σ StorageError (Option (Int64 × Bytes) × BTreeCursor)) store =
      .ok (row, moved) after) : moved.Among pages := by
  induction fuel generalizing store cursor with
  | zero => cases ran
  | succ fuel ih =>
      cases here : cursor.cell? with
      | none =>
          rw [next_of_no_cell here] at ran
          cases further : nextChild cursor.stack with
          | none =>
              simp only [next, Option.bind_none, further] at ran
              obtain ⟨made, -⟩ := EStateM.Result.ok.inj ran
              obtain ⟨-, rfl⟩ := Prod.mk.inj made
              exact fun place isPlace => by cases isPlace
          | some place =>
              obtain ⟨child, stack⟩ := place
              rw [(@next_of_stack σ _ cursor.stack fuel store).2 child stack further] at ran
              obtain ⟨lower, reached, descended, ran⟩ := Exec.bind_eq_ok.mp ran
              obtain ⟨among', keeps⟩ := descendLeftmost_among parses same descended
              exact ih keeps among' ran
      | some cell =>
          obtain ⟨stack, leaf⟩ := cursor
          obtain ⟨place, isPlace, there⟩ := Option.bind_eq_some_iff.mp here
          obtain ⟨l, i⟩ := place
          obtain rfl : leaf = some (l, i) := isPlace
          have there : l.cells[i]? = some cell := there
          simp only [next, Option.bind_some, there, Option.map_some] at ran
          obtain ⟨value, reached, -, ran⟩ := Exec.bind_eq_ok.mp ran
          obtain ⟨made, -⟩ := EStateM.Result.ok.inj ran
          obtain ⟨-, rfl⟩ := Prod.mk.inj made
          rintro place' isPlace'
          obtain rfl := Option.some.inj isPlace'
          exact among (l, i) rfl

end

end BTreeCursor

/-! ## Pages that never end -/

/-- A file that is read, and whose pages stay what they are. -/
structure PageFile where
  pages : PageContents

namespace PageFile

instance : PageSink PageFile where
  getPage id := fun file =>
    match file.pages id with
    | some data => .ok ⟨id, data⟩ file
    | none => .error (.error (.pageOutOfRange id)) file
  allocPage := Exec.err .readOnly
  putPage _ := Exec.err .readOnly
  freePage _ := pure ()

instance : StaticSink PageFile where
  contents file := file.pages
  getPage_some := by
    intro file id data there
    exact ⟨file, by simp only [PageSource.getPage, there], rfl⟩
  getPage_none := by
    intro file id missing
    exact ⟨.pageOutOfRange id, file, by simp only [PageSource.getPage, missing]⟩
  freePage_static file id := ⟨file, rfl, rfl⟩

/-- An interior node without cells whose right child is page 2. -/
def selfChild : PageData :=
  ⟨[5, 0, 0, 0, 0, 0, 0, 0, 0, 0, 0, 2] ++ List.replicate (pageSize - 12) 0, by
    rw [List.length_append, List.length_replicate]
    rfl⟩

theorem parse_selfChild : Node.parse ⟨2, selfChild⟩ = .ok (.interior ⟨[], 2⟩) := by decide +kernel

/-- A file with this node on page 2. -/
def looped : Audited PageFile := ⟨⟨fun id => if id = 2 then some selfChild else none⟩, true⟩

theorem accepts_looped {id : PageId} {data : PageData} (there : contents looped id = some data) :
    Node.parse ⟨id, data⟩ = .ok (.interior ⟨[], 2⟩) := by
  change (if id = 2 then some selfChild else none) = some data at there
  split at there
  · next second =>
    obtain rfl := Option.some.inj there
    rw [second, parse_selfChild]
  · cases there

end PageFile

end Squrust.Core
