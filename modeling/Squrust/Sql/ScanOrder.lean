import Squrust.Sql.Dml
import Squrust.Sql.Streams

/-!
# Scans of a tree in use

A tree that was created and then changed by calls that returned holds the rows of a
map. From every key, a cursor gives the rows at that key and behind it, in order. The
scan of a table seeks again for every row, to the key behind the last one, and gives
the same rows: each once, in the order of the keys, and then no more. There is no key
behind the greatest one, where it stops instead.
-/

set_option autoImplicit false

namespace Squrust.Sql

open Squrust.Foundation

open Squrust.Core

namespace TableScan

/-- A row has the id it is stored under. -/
theorem row_rowId {width : Nat} {rowidAlias : Option Nat} {defaults : List Value} {key : Int64}
    {bytes : Bytes} {made : Row} (read : row width rowidAlias defaults key bytes = .ok made) :
    made.rowId = key := by
  obtain ⟨decoded, decode, rest⟩ := Outcome.bind_eq_ok.mp read
  obtain ⟨header, _, decode⟩ := Outcome.bind_eq_ok.mp decode
  obtain ⟨serials, _, decode⟩ := Outcome.bind_eq_ok.mp decode
  obtain ⟨stored, _, decode⟩ := Outcome.bind_eq_ok.mp decode
  obtain rfl := Outcome.pure_eq_ok.mp decode
  have joined : ∀ values : List Value, (pure ⟨key, values⟩ : Outcome SqlError Row) = .ok made →
      made.rowId = key := by
    intro values same
    obtain rfl := Outcome.pure_eq_ok.mp same
    rfl
  cases rowidAlias with
  | none =>
      simp only at rest
      split at rest
      · split at rest
        · exact joined _ rest
        · cases rest
      · exact joined _ rest
  | some a =>
      simp only at rest
      split at rest
      · split at rest
        · exact joined _ rest
        · cases rest
      · exact joined _ rest

/-- The record of a row with no more values than there are defaults is read as a row. -/
theorem exists_row_of_asRecord {width : Nat} {rowidAlias : Option Nat} {defaults : List Value}
    {stored : Row} {record : Record} (encoded : asRecord stored = .ok record)
    (within : stored.values.length ≤ defaults.length) :
    ∃ made, row width rowidAlias defaults stored.rowId record.val = .ok made := by
  simp only [row, decode_asRecord encoded, Outcome.ok_bind, List.length_map, if_pos within]
  split
  · cases rowidAlias with
    | none => exact ⟨_, rfl⟩
    | some a => exact ⟨_, rfl⟩
  · cases rowidAlias with
    | none => exact ⟨_, rfl⟩
    | some a => exact ⟨_, rfl⟩

end TableScan

section

variable {σ : Type} [PageSink σ] [MapSink σ] {sink : σ} {used root : PageId}
  {created after : Audited σ} {steps : List (Call × Nat)} {replies : List Reply}

/-- **Scans.** On a tree that was created and changed by calls that all returned and
wrote only nodes that fit, a cursor from a key gives the rows from that key on, and
the scan of a table gives every row once, in the order of the keys. -/
theorem scans_of_calls (inUse : view sink used ≠ .free)
    (creation : BTree.create (⟨sink, true⟩ : Audited σ) = .ok root created)
    (run : BTree.calls root steps created = .ok replies after) (fit : after.allFit = true) :
    ∃ entries : Rows, Ascending entries ∧
      BTree.mapOf entries = (replay noRows (steps.map Prod.fst)).1 ∧
      (∀ key : Int64,
        BTree.Reads (fun fuel => do BTreeCursor.collect fuel (← BTreeCursor.seek fuel root key))
          after.sink ((entries.filter fun entry => decide (key ≤ entry.1)).map fun entry =>
            (entry.1, entry.2.val))) ∧
      ∀ (columns : List ColumnInfo) (rowidAlias : Option Nat) (defaults : List Value)
        (rowOf : Int64 × Record → Row),
        (∀ entry ∈ entries,
          TableScan.row columns.length rowidAlias defaults entry.1 entry.2.val = .ok (rowOf entry)) →
        Pull.Yields (fun store : σ => view store = view after.sink)
            (TableScan.next root columns rowidAlias defaults) ⟨Int64.minValue, false⟩
            (entries.map rowOf) ∧
          (entries.map rowOf).map Row.rowId = entries.map Prod.fst := by
  have inUse' : view (⟨sink, true⟩ : Audited σ) used ≠ .free := inUse
  have empty := BTree.create_ok inUse' creation (BTree.tracked_calls _ _ run fit)
  obtain ⟨entries, pages, tree, replayed⟩ := BTree.calls_refine empty run fit
  have none : BTree.mapOf [] = noRows := rfl
  rw [none] at replayed
  have tree' : BTree.Tree (view after.sink) root entries pages := tree
  refine ⟨entries, tree.ascending, by rw [replayed], fun key => BTreeCursor.collect_seek tree' key, ?_⟩
  intro columns rowidAlias defaults rowOf decodes
  have all : (entries.filter fun entry => decide (Int64.minValue ≤ entry.1)) = entries := by
    rw [List.filter_eq_self]
    exact fun entry _ => decide_eq_true (Int64.minValue_le entry.1)
  have pulled : Pull.Yields (fun store : σ => view store = view after.sink)
      (TableScan.next root columns rowidAlias defaults) ⟨Int64.minValue, false⟩ _ :=
    TableScan.yields tree' Int64.minValue decodes
  rw [all] at pulled
  refine ⟨pulled, ?_⟩
  rw [List.map_map]
  apply List.map_congr_left
  intro entry member
  exact TableScan.row_rowId (decodes entry member)

end

/-- Rows at both ends of the keys. -/
def endCalls : List (Call × Nat) :=
  [(.insert Int64.maxValue ⟨[2, 1, 7], by decide⟩, 4),
    (.insert Int64.minValue ⟨[2, 1, 8], by decide⟩, 4)]

theorem endCalls_return : Exec.leaves BTree.create (⟨MemStore.new, true⟩ : Audited MemStore)
    (fun root created => Exec.leaves (BTree.calls root endCalls) created fun _ after =>
      after.allFit) = true := by
  decide +kernel

/-- The scan of a table with the least and the greatest key. -/
theorem scans_of_calls_endCalls : ∃ (root : PageId) (store : MemStore),
    Pull.Yields (fun other : MemStore => view other = view store)
      (TableScan.next root [⟨['a'], none, none⟩] none [.null]) ⟨Int64.minValue, false⟩
      [⟨Int64.minValue, [.integer 8]⟩, ⟨Int64.maxValue, [.integer 7]⟩] := by
  obtain ⟨root, created, creation, rest⟩ := Exec.exists_of_leaves endCalls_return
  obtain ⟨replies, after, run, fit⟩ := Exec.exists_of_leaves rest
  obtain ⟨entries, ascending, map, _, scan⟩ := scans_of_calls MemStore.new_inUse creation run fit
  have rows : entries = [(Int64.minValue, ⟨[2, 1, 8], by decide⟩),
      (Int64.maxValue, ⟨[2, 1, 7], by decide⟩)] := by
    have ordered : Ascending [(Int64.minValue, (⟨[2, 1, 8], by decide⟩ : Record)),
        (Int64.maxValue, ⟨[2, 1, 7], by decide⟩)] := by
      simp [Ascending]
      decide
    refine ascending_ext ascending ordered fun rowid record => ?_
    have same := congrFun map rowid
    simp only [BTree.mapOf, endCalls, List.map_cons, List.map_nil, replay, Call.update, noRows] at same
    have lookups : Entries.lookup rowid entries = Entries.lookup rowid
        [(Int64.minValue, ⟨[2, 1, 8], by decide⟩), (Int64.maxValue, ⟨[2, 1, 7], by decide⟩)] := by
      apply Option.map_injective Subtype.val_injective
      rw [same]
      by_cases least : rowid = Int64.minValue
      · rw [least]
        decide
      · by_cases greatest : rowid = Int64.maxValue
        · rw [greatest]
          decide
        · simp [Entries.lookup, least, greatest, Ne.symm least, Ne.symm greatest]
    rw [← Entries.lookup_eq_some_iff ascending, ← Entries.lookup_eq_some_iff ordered, lookups]
  subst rows
  refine ⟨root, after.sink, (scan [⟨['a'], none, none⟩] none [.null]
    (fun entry => ⟨entry.1, if entry.1 = Int64.minValue then [.integer 8] else [.integer 7]⟩) ?_).1⟩
  intro entry member
  rcases List.mem_pair.mp member with rfl | rfl
  · decide +kernel
  · decide +kernel

end Squrust.Sql
