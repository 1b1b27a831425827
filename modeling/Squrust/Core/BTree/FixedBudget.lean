import Squrust.Core.BTree.LastKey
import Squrust.Foundation.Steady

/-!
# Reading within a budget

The reads of the tree are steady, so a read with any budget gives what the tree
holds, unless the budget is spent (`get_observes`, `lastKey_observes`,
`seekFirst_observes`, `next_observes`). The pages stay as they are.
-/

set_option autoImplicit false

namespace Squrust.Core

open Squrust.Foundation

open Exec (SteadyAt Observes)

namespace BTree

variable {σ : Type} [PageSource σ]

/-! ## Steady reads -/

theorem steady_readValueLoop (cell : LeafCell) (fuel : Nat) (next : PageId) (out : Bytes) :
    SteadyAt (fun fuel => (readValueLoop cell fuel next out : Exec σ StorageError Bytes)) fuel := by
  induction fuel generalizing next out with
  | zero => exact .zero rfl
  | succ fuel ih =>
      apply SteadyAt.succ
      by_cases more : next ≠ 0
      · simp only [readValueLoop, if_pos more]
        apply SteadyAt.bind (.const _ _)
        intro page
        apply SteadyAt.bind (.const _ _)
        intro np
        apply SteadyAt.bind (.const _ _)
        intro remaining
        apply SteadyAt.bind (.const _ _)
        intro chunk
        exact ih np (out ++ chunk)
      · simp only [readValueLoop, if_neg more]
        exact .const _ _

theorem steady_readValue (cell : LeafCell) (fuel : Nat) :
    SteadyAt (fun fuel => (readValue fuel cell : Exec σ StorageError Bytes)) fuel := by
  by_cases none : cell.overflow = 0
  · simp only [readValue, if_pos none]
    exact .const _ _
  · simp only [readValue, if_neg none]
    apply SteadyAt.bind (.const _ _)
    intro reserved
    apply SteadyAt.bind (steady_readValueLoop cell fuel _ _)
    intro out
    exact .const _ _

theorem steady_get (fuel : Nat) (cur : PageId) (rowid : Int64) :
    SteadyAt (fun fuel => (get fuel cur rowid : Exec σ StorageError (Option Bytes))) fuel := by
  induction fuel generalizing cur with
  | zero => exact .zero rfl
  | succ fuel ih =>
      apply SteadyAt.succ
      simp only [get]
      apply SteadyAt.bind (.const _ _)
      intro node
      cases node with
      | interior n => exact ih _
      | leaf l =>
          cases search : l.search rowid with
          | error i =>
              simp only [search]
              exact .const _ _
          | ok i =>
              simp only [search]
              apply SteadyAt.bind (.const _ _)
              intro cell
              apply SteadyAt.bind (steady_readValue cell fuel)
              intro value
              exact .const _ _

theorem steady_lastKey (fuel : Nat) (cur : PageId) :
    SteadyAt (fun fuel => (lastKey fuel cur : Exec σ StorageError (Option Int64))) fuel := by
  induction fuel generalizing cur with
  | zero => exact .zero rfl
  | succ fuel ih =>
      apply SteadyAt.succ
      simp only [lastKey]
      apply SteadyAt.bind (.const _ _)
      intro node
      cases node with
      | interior n => exact ih _
      | leaf l => exact .const _ _

theorem steady_seekLoop (rowid : Int64) (fuel : Nat) (cur : PageId)
    (stack : List (InteriorNode × Nat)) :
    SteadyAt (fun fuel => (BTreeCursor.seekLoop rowid fuel cur stack : Exec σ StorageError BTreeCursor))
      fuel := by
  induction fuel generalizing cur stack with
  | zero => exact .zero rfl
  | succ fuel ih =>
      apply SteadyAt.succ
      simp only [BTreeCursor.seekLoop]
      apply SteadyAt.bind (.const _ _)
      intro node
      cases node with
      | interior n => exact ih _ _
      | leaf l => exact .const _ _

theorem steady_descendLeftmost (fuel : Nat) (cur : PageId) (stack : List (InteriorNode × Nat)) :
    SteadyAt (fun fuel => (BTreeCursor.descendLeftmost fuel cur stack : Exec σ StorageError BTreeCursor))
      fuel := by
  induction fuel generalizing cur stack with
  | zero => exact .zero rfl
  | succ fuel ih =>
      apply SteadyAt.succ
      simp only [BTreeCursor.descendLeftmost]
      apply SteadyAt.bind (.const _ _)
      intro node
      cases node with
      | interior n => exact ih _ _
      | leaf l => exact .const _ _

theorem steady_next (fuel : Nat) (cursor : BTreeCursor) :
    SteadyAt (fun fuel => (BTreeCursor.next fuel cursor :
      Exec σ StorageError (Option (Int64 × Bytes) × BTreeCursor))) fuel := by
  induction fuel generalizing cursor with
  | zero => exact .zero rfl
  | succ fuel ih =>
      apply SteadyAt.succ
      simp only [BTreeCursor.next]
      generalize cursor.leaf.bind _ = here
      cases here with
      | some place =>
          obtain ⟨leaf, i, cell⟩ := place
          dsimp only
          apply SteadyAt.bind (steady_readValue cell fuel)
          intro value
          exact .const _ _
      | none =>
          dsimp only
          cases later : BTreeCursor.nextChild cursor.stack with
          | none =>
              simp only [later]
              exact .const _ _
          | some place =>
              obtain ⟨child, stack⟩ := place
              simp only [later]
              apply SteadyAt.bind (steady_descendLeftmost fuel child stack)
              intro cursor
              exact ih cursor

/-! ## What a read gives within its budget -/

variable [MapSource σ] {store : σ}

theorem Reads.observes {α : Type} {call : Nat → Exec σ StorageError α} {value : α} {fuel : Nat}
    (reads : Reads call store value) (steady : SteadyAt call fuel) :
    Observes view (call fuel) store (.ok value) := by
  obtain ⟨after, returns, same⟩ := reads
  rcases returns.within steady with run | spent
  · exact .inl ⟨after, run, same⟩
  · exact .inr spent

section

variable {root : PageId} {entries : Rows} {pages : List PageId}

/-- Reading a rowid gives its record. -/
theorem get_observes (tree : Tree (view store) root entries pages) (rowid : Int64) (fuel : Nat) :
    Observes view (get fuel root rowid) store
      (.ok ((Entries.lookup rowid entries).map Subtype.val)) :=
  (get_tree tree rowid).observes (steady_get fuel root rowid)

/-- What `last_key` gives is the greatest rowid, or nothing. -/
theorem lastKey_observes {seen : View PageId PageData} (tree : Tree seen root entries pages) :
    ∃ last, (∀ key, last = some key → entries.getLast?.map Prod.fst = some key) ∧
      ∀ store : σ, view store = seen → ∀ fuel, Observes view (lastKey fuel root) store (.ok last) := by
  obtain ⟨depth, subtree, _⟩ := tree
  obtain ⟨leaf, _, greatest, reads⟩ := @rightmost_subtree σ _ _ _ _ _ _ _ _ _ subtree
  refine ⟨_, ?_, fun store same fuel => (reads store same).observes (steady_lastKey fuel root)⟩
  intro key found
  have held : leaf.cells ≠ [] := by
    intro none
    rw [none] at found
    cases found
  exact (greatest held).trans found

/-- A cursor at the first row has all rows to give. -/
theorem seekFirst_observes (tree : Tree (view store) root entries pages) :
    ∃ cursor size, Remaining (view store) cursor entries size ∧
      ∀ fuel, Observes view (BTreeCursor.seekFirst fuel root) store (.ok cursor) := by
  obtain ⟨depth, subtree, _⟩ := tree
  obtain ⟨cursor, size, remaining, reads⟩ := @BTreeCursor.seek_subtree σ _ _ _ _ _ _ _ _ _ _ _
    Int64.minValue _ subtree ⟨Bound.bot_lt_key _, Bound.key_le_top _⟩ (.nil depth)
  have all : entries.filter (fun entry => decide (Int64.minValue ≤ entry.1)) = entries := by
    rw [List.filter_eq_self]
    exact fun entry _ => decide_eq_true (Int64.minValue_le entry.1)
  rw [List.append_nil, all] at remaining
  exact ⟨cursor, size, remaining, fun fuel =>
    (reads store rfl).observes (steady_seekLoop _ fuel root [])⟩

end

/-- A cursor gives the first of the rows it has still to give. -/
theorem next_observes {seen : View PageId PageData} {cursor : BTreeCursor} {rows : Rows} {size : Nat}
    (remaining : Remaining seen cursor rows size) :
    ∃ cursor' size', Remaining seen cursor' rows.tail size' ∧
      ∀ store : σ, view store = seen → ∀ fuel, Observes view (BTreeCursor.next fuel cursor) store
        (.ok (rows.head?.map fun row => (row.1, row.2.val), cursor')) := by
  obtain ⟨cursor', size', remaining', reads⟩ := @BTreeCursor.next_remaining σ _ _ _ _ _ _ remaining
  exact ⟨cursor', size', remaining', fun store same fuel =>
    (reads store same).observes (steady_next fuel cursor)⟩

end BTree

end Squrust.Core
