import Squrust.Core.BTree.Lookup
import Squrust.Core.BTree.MemStore

/-!
# The tree is a map

What a table b-tree is for: a map from rowids to records. `RowMap` is that map,
with an update for each insert, a removal for each delete, and the answer a
delete gives. Calls on a tree that all return, and whose nodes all fit their
pages, do to the tree what they do to the map (`calls_refine`), and reading the
tree afterwards is reading the map.

The calls come with the rounds each is given, so a run says for every call that
it returned within some number of rounds.
-/

set_option autoImplicit false

namespace Squrust.Core

open Squrust.Foundation

/-- A call that changes a tree. -/
inductive Call where
  | insert (rowid : Int64) (record : Record)
  | delete (rowid : Int64)
deriving DecidableEq

/-- What a call returns. -/
inductive Reply where
  | inserted
  | deleted (found : Bool)
deriving DecidableEq

/-! ## The map -/

/-- A map from rowids to the bytes of their records. -/
abbrev RowMap := Int64 → Option Bytes

namespace Call

/-- The map after a call. -/
def update (map : RowMap) : Call → RowMap
  | insert rowid record => fun other => if other = rowid then some record.val else map other
  | delete rowid => fun other => if other = rowid then none else map other

/-- What a call on the map returns. -/
def answer (map : RowMap) : Call → Reply
  | insert _ _ => .inserted
  | delete rowid => .deleted (map rowid).isSome

end Call

/-- The map after a sequence of calls, and what they returned. -/
def replay : RowMap → List Call → RowMap × List Reply
  | map, [] => (map, [])
  | map, call :: calls =>
      let (final, replies) := replay (call.update map) calls
      (final, call.answer map :: replies)

/-- The map without a row. -/
def noRows : RowMap := fun _ => none

namespace BTree

/-! ## Runs -/

section Runs

variable {σ : Type} [PageSink σ]

/-- One call, with a number of rounds. -/
def call (root : PageId) (fuel : Nat) : Call → Exec (Audited σ) StorageError Reply
  | .insert rowid record => do
      insert fuel root rowid record
      return .inserted
  | .delete rowid => do
      return .deleted (← delete fuel root rowid)

/-- A sequence of calls, each with its number of rounds. -/
def calls (root : PageId) : List (Call × Nat) → Exec (Audited σ) StorageError (List Reply)
  | [] => return []
  | (one, fuel) :: rest => do
      let reply ← call root fuel one
      let replies ← calls root rest
      return reply :: replies

theorem tracked_call (root : PageId) (fuel : Nat) (one : Call) :
    Audited.Tracked (call root fuel one : Exec (Audited σ) StorageError Reply) := by
  cases one with
  | insert rowid record => exact .bind (tracked_insert _ _ _ _) fun _ => .pure _
  | delete rowid => exact .bind (tracked_delete _ _ _) fun _ => .pure _

theorem tracked_calls (root : PageId) (steps : List (Call × Nat)) :
    Audited.Tracked (calls root steps : Exec (Audited σ) StorageError (List Reply)) := by
  induction steps with
  | nil => exact .pure _
  | cons step steps ih => exact .bind (tracked_call _ _ _) fun _ => .bind ih fun _ => .pure _

end Runs

/-- The rows as a map. -/
def mapOf (entries : Rows) : RowMap := fun rowid => (Entries.lookup rowid entries).map Subtype.val

theorem mapOf_put {entries : Rows} {rowid : Int64} {record : Record} (ascending : Ascending entries) :
    mapOf (Entries.put rowid record entries) = Call.update (mapOf entries) (.insert rowid record) := by
  funext other
  simp only [mapOf, Call.update, Entries.lookup_put ascending]
  split
  · rfl
  · rfl

theorem mapOf_drop {entries : Rows} {rowid : Int64} (ascending : Ascending entries) :
    mapOf (Entries.drop rowid entries) = Call.update (mapOf entries) (.delete rowid) := by
  funext other
  simp only [mapOf, Call.update, Entries.lookup_drop ascending]
  split
  · rfl
  · rfl

theorem isSome_mapOf {entries : Rows} {rowid : Int64} :
    (mapOf entries rowid).isSome = true ↔ ∃ entry ∈ entries, entry.1 = rowid := by
  rw [mapOf, Option.isSome_map, ← Bool.not_eq_false, Option.isSome_eq_false_iff,
    Option.isNone_iff_eq_none, Entries.lookup_eq_none_iff]
  push Not
  rfl

theorem Tree.ascending {view : View PageId PageData} {root : PageId} {entries : Rows}
    {pages : List PageId} (tree : Tree view root entries pages) : Ascending entries := by
  obtain ⟨depth, subtree, _⟩ := tree
  exact (Subtree.ranged view depth).ascending subtree

theorem Tree.live {view : View PageId PageData} {root : PageId} {entries : Rows}
    {pages : List PageId} (tree : Tree view root entries pages) : ∀ id ∈ pages, view id ≠ .free := by
  obtain ⟨depth, subtree, _⟩ := tree
  exact subtree.live

/-- A tree holds one map. -/
theorem Tree.mapOf_eq {σ : Type} [PageSource σ] [MapSource σ] {store : σ} {root : PageId}
    {first second : Rows} {pages others : List PageId} (tree : Tree (view store) root first pages)
    (tree' : Tree (view store) root second others) : mapOf first = mapOf second := by
  funext rowid
  obtain ⟨_, returns, _⟩ := get_tree tree rowid
  obtain ⟨_, returns', _⟩ := get_tree tree' rowid
  exact returns.unique returns'

section Refinement

variable {σ : Type} [PageSink σ] [MapSink σ] {store after : Audited σ} {root : PageId}

/-- A new tree holds nothing, on a page that was free. -/
theorem create_replaces {used : PageId} (inUse : view store used ≠ .free)
    (run : create store = .ok root after) (fit : after.allFit = true) :
    Tree (view after) root [] [root] ∧ Replaces (view store) (view after) [] [root] := by
  simp only [create, Exec.bind_eq_ok, Exec.pure_eq_ok] at run
  obtain ⟨id, allocated, alloc, _, noted, note, page, serialized, lifted, _, wrote, put, rfl, rfl⟩ :=
    run
  have write : writeNode id Node.emptyLeaf allocated = .ok () wrote := by
    simp only [writeNode, Exec.bind_eq_ok]
    exact ⟨_, noted, note, page, serialized, lifted, put⟩
  obtain ⟨_, free, taken⟩ := MapSink.allocPage_ok inUse alloc
  have body : Body (view allocated) 0 ⊥ ⊤ Node.emptyLeaf [] [] :=
    ⟨bot_lt_top, by simp, .nil, [], rfl, rfl, rfl, by simp⟩
  obtain ⟨subtree, written⟩ := writeNode_subtree body (by simp) (by rw [taken]; simp) write fit
  refine ⟨⟨0, subtree, by simp⟩, .trans ?_ written⟩
  rw [taken]
  exact .take free (by simp)

/-- A fresh tree is the empty map. -/
theorem create_ok {used : PageId} (inUse : view store used ≠ .free)
    (run : create store = .ok root after) (fit : after.allFit = true) :
    Tree (view after) root [] [root] :=
  (create_replaces inUse run fit).1

/-- One call does to the tree what it does to the map. -/
theorem call_refines {fuel : Nat} {entries : Rows} {pages : List PageId} {one : Call} {reply : Reply}
    (tree : Tree (view store) root entries pages) (run : call root fuel one store = .ok reply after)
    (fit : after.allFit = true) :
    reply = one.answer (mapOf entries) ∧ ∃ entries' pages',
      Tree (view after) root entries' pages' ∧ mapOf entries' = one.update (mapOf entries) := by
  have ascending := tree.ascending
  cases one with
  | insert rowid record =>
      simp only [call, Exec.bind_eq_ok, Exec.pure_eq_ok] at run
      obtain ⟨_, between, inserted, rfl, rfl⟩ := run
      obtain ⟨pages', tree', _⟩ := insert_ok tree inserted fit
      exact ⟨rfl, _, pages', tree', mapOf_put ascending⟩
  | delete rowid =>
      simp only [call, Exec.bind_eq_ok, Exec.pure_eq_ok] at run
      obtain ⟨found, between, deleted, rfl, rfl⟩ := run
      obtain ⟨answer, pages', tree', _⟩ := delete_ok tree deleted fit
      refine ⟨?_, _, pages', tree', mapOf_drop ascending⟩
      rw [Call.answer, Reply.deleted.injEq, Bool.eq_iff_iff, answer, isSome_mapOf]

/-- **Refinement.** A sequence of calls does to the tree what it does to the map. -/
theorem calls_refine {steps : List (Call × Nat)} {entries : Rows} {pages : List PageId}
    {replies : List Reply} (tree : Tree (view store) root entries pages)
    (run : calls root steps store = .ok replies after) (fit : after.allFit = true) :
    ∃ entries' pages', Tree (view after) root entries' pages' ∧
      replay (mapOf entries) (steps.map Prod.fst) = (mapOf entries', replies) := by
  induction steps generalizing store entries pages replies with
  | nil =>
      obtain ⟨rfl, rfl⟩ := Exec.pure_eq_ok.mp run
      exact ⟨entries, pages, tree, rfl⟩
  | cons step steps ih =>
      obtain ⟨one, fuel⟩ := step
      simp only [calls, Exec.bind_eq_ok, Exec.pure_eq_ok] at run
      obtain ⟨reply, between, first, others, _, rest, rfl, rfl⟩ := run
      obtain ⟨rfl, entries', pages', tree', same⟩ :=
        call_refines tree first (tracked_calls _ _ rest fit)
      obtain ⟨entries'', pages'', tree'', replayed⟩ := ih tree' rest
      rw [same] at replayed
      refine ⟨entries'', pages'', tree'', ?_⟩
      simp only [List.map_cons, replay, replayed]

/-- A scan from the first row gives every row of the map, in order. -/
theorem scan_tree {sink : σ} {entries : Rows} {pages : List PageId}
    (tree : Tree (view sink) root entries pages) :
    ∃ rows : List (Int64 × Bytes),
      Reads (fun fuel => do BTreeCursor.collect fuel (← BTreeCursor.seekFirst fuel root)) sink rows ∧
      Ascending rows ∧ ∀ rowid record, (rowid, record) ∈ rows ↔ mapOf entries rowid = some record := by
  have ascending := tree.ascending
  have all : entries.filter (fun entry => decide (Int64.minValue ≤ entry.1)) = entries := by
    rw [List.filter_eq_self]
    exact fun entry _ => decide_eq_true (Int64.minValue_le entry.1)
  refine ⟨entries.map fun row => (row.1, row.2.val), ?_, ?_, ?_⟩
  · have scan := BTreeCursor.collect_seek tree Int64.minValue
    rwa [all] at scan
  · rw [Ascending, List.pairwise_map]
    exact ascending
  · intro rowid record
    simp only [mapOf, Option.map_eq_some_iff, Entries.lookup_eq_some_iff ascending, List.mem_map,
      Prod.mk.injEq]
    constructor
    · rintro ⟨entry, member, rfl, rfl⟩
      exact ⟨entry.2, member, rfl⟩
    · rintro ⟨stored, member, rfl⟩
      exact ⟨(rowid, stored), member, rfl, rfl⟩

end Refinement

/-- **The tree is a map.** A tree is created on a sink in order, and calls on it
all return and write only nodes that fit their pages. Then they returned what
they return on the map, and reading the tree is reading the map: every rowid, and
all rows in order. -/
theorem tree_is_map {σ : Type} [PageSink σ] [MapSink σ] {sink : σ} {used root : PageId}
    {created after : Audited σ} {steps : List (Call × Nat)} {replies : List Reply}
    (inUse : view sink used ≠ .free)
    (creation : create (⟨sink, true⟩ : Audited σ) = .ok root created)
    (run : calls root steps created = .ok replies after) (fit : after.allFit = true) :
    replies = (replay noRows (steps.map Prod.fst)).2 ∧
    (∀ rowid, Reads (fun fuel => get fuel root rowid) after.sink
      ((replay noRows (steps.map Prod.fst)).1 rowid)) ∧
    ∃ rows : List (Int64 × Bytes),
      Reads (fun fuel => do BTreeCursor.collect fuel (← BTreeCursor.seekFirst fuel root)) after.sink
        rows ∧
      Ascending rows ∧ ∀ rowid record,
        (rowid, record) ∈ rows ↔ (replay noRows (steps.map Prod.fst)).1 rowid = some record := by
  have inUse' : view (⟨sink, true⟩ : Audited σ) used ≠ .free := inUse
  have empty := create_ok inUse' creation (tracked_calls _ _ run fit)
  obtain ⟨entries, pages, tree, replayed⟩ := calls_refine empty run fit
  have none : mapOf [] = noRows := rfl
  rw [none] at replayed
  rw [replayed]
  have tree' : Tree (view after.sink) root entries pages := tree
  exact ⟨rfl, get_tree tree', scan_tree tree'⟩

/-- A new tree and calls on it return and write only nodes that fit their pages. -/
def staysWithin {σ : Type} [PageSink σ] (sink : σ) (steps : List (Call × Nat)) : Bool :=
  match create (⟨sink, true⟩ : Audited σ) with
  | .error _ _ => false
  | .ok root created => match calls root steps created with
    | .error _ _ => false
    | .ok _ after => after.allFit

theorem exists_of_staysWithin {σ : Type} [PageSink σ] {sink : σ} {steps : List (Call × Nat)}
    (within : staysWithin sink steps = true) : ∃ root created replies after,
      create (⟨sink, true⟩ : Audited σ) = .ok root created ∧
        calls root steps created = .ok replies after ∧ after.allFit = true := by
  unfold staysWithin at within
  cases creation : create (⟨sink, true⟩ : Audited σ) with
  | error fault created => simp [creation] at within
  | ok root created =>
      cases run : calls root steps created with
      | error fault after => simp [creation, run] at within
      | ok replies after =>
          simp only [creation, run] at within
          exact ⟨root, created, replies, after, rfl, run, within⟩

/-- Two rows, one of them deleted again, and a row that is not there. -/
def fourCalls : List (Call × Nat) :=
  let record : Record := ⟨[1, 2, 3, 4], by decide⟩
  [(.insert 5 record, 4), (.insert (-3) record, 4), (.delete 5, 4), (.delete 7, 4)]

/-- The calls return on a new store in memory, within its pages. -/
theorem fourCalls_return : ∃ root created replies after,
    create (⟨MemStore.new, true⟩ : Audited MemStore) = .ok root created ∧
      calls root fourCalls created = .ok replies after ∧ after.allFit = true :=
  exists_of_staysWithin (by decide +kernel)

theorem tree_is_map_fourCalls : ∃ root, ∃ replies : List Reply, ∃ after : Audited MemStore,
    replies = [.inserted, .inserted, .deleted true, .deleted false] ∧
      Reads (fun fuel => get fuel root (-3)) after.sink (some [1, 2, 3, 4]) ∧
      Reads (fun fuel => get fuel root 5) after.sink none := by
  obtain ⟨root, created, replies, after, creation, run, fit⟩ := fourCalls_return
  obtain ⟨answers, rows, _⟩ := tree_is_map MemStore.new_inUse creation run fit
  exact ⟨root, replies, after, answers.trans (by decide), rows (-3), rows 5⟩

end BTree

end Squrust.Core
