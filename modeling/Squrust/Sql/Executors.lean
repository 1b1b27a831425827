import Squrust.Core.BTree.Tree
import Squrust.Foundation.Pull
import Squrust.Foundation.StableSort
import Squrust.Sql.Plan

/-!
# Executors

Each operator of a plan is a stream of rows that pulls from its inputs. The state
of a stream is the state of the source's struct: what it has skipped, which row of
the left input is being joined, the rows that are there because the whole input
had to be read.

Calls have a budget of rounds, as reading the b-tree has. A loop that goes around
once more is a call with the rest of the budget.
-/

set_option autoImplicit false

namespace Squrust.Sql

open Squrust.Foundation

open Squrust.Foundation.Exec (own modifyOwn onStore onInner)

open Squrust.Core (PageId PageSource BTreeCursor)

/-- A stream of rows over a source of pages. -/
structure Executor (σ : Type) where
  columns : List ColumnInfo
  State : Type
  start : State
  next : Pull.Next σ State SqlError Row

variable {σ : Type}

/-! ## Rows that are there -/

namespace DualExec

/-- Whether the row has been given. -/
def next : Pull.Next σ Bool SqlError Row := fun _ => do
  if ← own then return none
  else
    modifyOwn fun _ => true
    return some ⟨0, []⟩

end DualExec

namespace TableScan

structure State where
  nextKey : Int64
  done : Bool

/-- The row of a record: filled up with the defaults of the columns that were added
later, and with its key in the column that stands for the row id. -/
def row (width : Nat) (rowidAlias : Option Nat) (defaults : List Value) (key : Int64) (bytes : Bytes) :
    Outcome SqlError Row := do
  let row ← Row.decode key bytes
  let values ←
    if row.values.length < width then
      if row.values.length ≤ defaults.length then
        .ok (row.values ++ defaults.drop row.values.length)
      else .panic "range start index out of range"
    else .ok row.values
  match rowidAlias with
  | some a => return ⟨row.rowId, values.set a (.integer key)⟩
  | none => return ⟨row.rowId, values⟩

/-- The first row at a key or behind it. -/
def firstFrom [PageSource σ] (fuel : Nat) (root : PageId) (key : Int64) :
    Exec σ SqlError (Option (Int64 × Bytes)) :=
  Exec.mapError .storage do
    let cursor ← BTreeCursor.seek fuel root key
    return (← BTreeCursor.next fuel cursor).1

/-- Give what was read, and move behind it. -/
def give (width : Nat) (rowidAlias : Option Nat) (defaults : List Value) :
    Option (Int64 × Bytes) → Exec (σ × State) SqlError (Option Row)
  | some (key, bytes) => do
      let row ← Exec.lift (row width rowidAlias defaults key bytes)
      if key = Int64.maxValue then
        modifyOwn fun self => { self with done := true }
      else
        modifyOwn fun self => { self with nextKey := key + 1 }
      return some row
  | none => do
      modifyOwn fun self => { self with done := true }
      return none

def next [PageSource σ] (root : PageId) (columns : List ColumnInfo) (rowidAlias : Option Nat)
    (defaults : List Value) : Pull.Next σ State SqlError Row := fun fuel => do
  let self ← own
  if self.done then return none
  else
    let found ← onStore (firstFrom fuel root self.nextKey)
    give columns.length rowidAlias defaults found

end TableScan

/-! ## One row at a time -/

namespace FilterExec

def next (input : Executor σ) (predicate : Compute) : Pull.Next σ input.State SqlError Row
  | 0 => Exec.outOfFuel
  | fuel + 1 => do
      match ← input.next fuel with
      | some row =>
          let v ← Exec.lift (predicate row)
          if v.isTruthy then return some row else next input predicate fuel
      | none => return none

end FilterExec

namespace ProjectExec

def next (input : Executor σ) (exprs : List Compute) : Pull.Next σ input.State SqlError Row :=
  fun fuel => do
    match ← input.next fuel with
    | some row =>
        let values ← Exec.lift (exprs.mapM fun e => e row)
        return some ⟨row.rowId, values⟩
    | none => return none

end ProjectExec

namespace LimitExec

structure State (input : Executor σ) where
  input : input.State
  skipped : Nat
  emitted : Nat

variable (input : Executor σ)

def pullInput (fuel : Nat) : Exec (σ × State input) SqlError (Option Row) :=
  onInner State.input (fun inner self => { self with input := inner }) (input.next fuel)

def next (limit : Option UInt64) (offset : UInt64) : Pull.Next σ (State input) SqlError Row
  | 0 => Exec.outOfFuel
  | fuel + 1 => do
      let self ← own
      if self.skipped < offset.toNat then
        match ← pullInput input fuel with
        | none => return none
        | some _ =>
            modifyOwn fun self => { self with skipped := self.skipped + 1 }
            next limit offset fuel
      else if limit.any fun l => l.toNat ≤ self.emitted then return none
      else
        match ← pullInput input fuel with
        | some row =>
            modifyOwn fun self => { self with emitted := self.emitted + 1 }
            return some row
        | none => return none

end LimitExec

/-- Two rows are duplicates: their values are equal, NULLs included. -/
def rowsEq (a b : List Value) : Bool :=
  a.length = b.length && (a.zip b).all fun (x, y) =>
    match x.isNull, y.isNull with
    | true, true => true
    | false, false => x.eq y
    | _, _ => false

namespace DistinctExec

structure State (input : Executor σ) where
  input : input.State
  seen : List (List Value)

variable (input : Executor σ)

def next : Pull.Next σ (State input) SqlError Row
  | 0 => Exec.outOfFuel
  | fuel + 1 => do
      match ← onInner State.input (fun inner self => { self with input := inner })
          (input.next fuel) with
      | some row =>
          let self ← own
          if self.seen.any fun prev => rowsEq prev row.values then next fuel
          else
            modifyOwn fun self => { self with seen := self.seen ++ [row.values] }
            return some row
      | none => return none

end DistinctExec

/-! ## Joins -/

/-- Drain an input that was taken out of the state. -/
def drain {τ : Type} (input : Executor σ) (taken : input.State) (fuel : Nat) :
    Exec (σ × τ) SqlError (List Row) :=
  onInner (fun _ => taken) (fun _ self => self) (Pull.collectAll input.next fuel)

namespace NestedLoopJoin

structure State (left right : Executor σ) where
  left : left.State
  right : Option right.State
  rightRows : List Row
  rightReady : Bool
  curLeft : Option Row
  rightIdx : Nat
  matched : Bool

variable (left right : Executor σ)

/-- Read the right input once. -/
def ensureRight (fuel : Nat) : Exec (σ × State left right) SqlError Unit := do
  let self ← own
  if self.rightReady then return ()
  else
    match self.right with
    | some r =>
        modifyOwn fun self => { self with right := none }
        let rows ← drain right r fuel
        modifyOwn fun self => { self with rightRows := rows }
    | none => pure ()
    modifyOwn fun self => { self with rightReady := true }

/-- Whether two rows side by side satisfy the condition. -/
def keeps (predicate : Option Compute) (combined : Row) : Outcome SqlError Bool :=
  match predicate with
  | none => return true
  | some p => return (← p combined).isTruthy

/-- The loop of `next`: a row of the left input, and the rows of the right one
from `rightIdx` on. -/
def loop (predicate : Option Compute) (leftOuter : Bool) :
    Nat → Exec (σ × State left right) SqlError (Option Row)
  | 0 => Exec.outOfFuel
  | fuel + 1 => do
      let self ← own
      match self.curLeft with
      | none =>
          match ← onInner State.left (fun inner self => { self with left := inner })
              (left.next fuel) with
          | some row =>
              modifyOwn fun self => { self with curLeft := some row, rightIdx := 0, matched := false }
              loop predicate leftOuter fuel
          | none => return none
      | some leftRow =>
          match self.rightRows[self.rightIdx]? with
          | some rightRow =>
              modifyOwn fun self => { self with rightIdx := self.rightIdx + 1 }
              let combined : Row := ⟨leftRow.rowId, leftRow.values ++ rightRow.values⟩
              if ← Exec.lift (keeps predicate combined) then
                modifyOwn fun self => { self with matched := true }
                return some combined
              else loop predicate leftOuter fuel
          | none =>
              let emitOuter := leftOuter && !self.matched
              modifyOwn fun self => { self with curLeft := none }
              if emitOuter then
                return some ⟨leftRow.rowId,
                  leftRow.values ++ List.replicate right.columns.length .null⟩
              else loop predicate leftOuter fuel

def next (predicate : Option Compute) (leftOuter : Bool) :
    Pull.Next σ (State left right) SqlError Row := fun fuel => do
  ensureRight left right fuel
  loop left right predicate leftOuter fuel

end NestedLoopJoin

/-! ## Operators that read their whole input first -/

/-- Give the next of the rows that are there. They are computed at the first call. -/
def nextProduced {τ : Type} (get : τ → Option (List Row)) (set : Option (List Row) → τ → τ)
    (compute : Exec (σ × τ) SqlError (List Row)) : Exec (σ × τ) SqlError (Option Row) := do
  let self ← own
  let rows ←
    match get self with
    | some rows => pure rows
    | none => compute
  modifyOwn (set (some rows.tail))
  return rows.head?

namespace SortExec

structure State (input : Executor σ) where
  input : Option input.State
  produced : Option (List Row)

variable (input : Executor σ)

/-- The first key in which two rows differ decides. -/
def compareKeys : List Bool → List Value → List Value → Ordering
  | asc :: rest, x :: xs, y :: ys =>
      let ord := if asc then x.orderKey y else (x.orderKey y).swap
      if ord ≠ .eq then ord else compareKeys rest xs ys
  | _, _, _ => .eq

/-- The rows in the order of their keys. The keys are evaluated first. -/
def sorted (keys : List (SortKey Compute)) (rows : List Row) : Outcome SqlError (List Row) := do
  let keyed ← rows.mapM fun row => do
    return (← keys.mapM fun k => k.expr row, row)
  return (sortBy (fun a b => compareKeys (keys.map SortKey.asc) a.1 b.1) keyed).map Prod.snd

def sortRows (keys : List (SortKey Compute)) (fuel : Nat) :
    Exec (σ × State input) SqlError (List Row) := do
  let self ← own
  let inner ← Exec.lift (.orPanic "sort computed once" self.input)
  modifyOwn fun self => { self with input := none }
  let rows ← drain input inner fuel
  Exec.lift (sorted keys rows)

def next (keys : List (SortKey Compute)) : Pull.Next σ (State input) SqlError Row := fun fuel =>
  nextProduced State.produced (fun produced self => { self with produced })
    (sortRows input keys fuel)

end SortExec

/-- The first value in which two rows differ decides, then the number of values. -/
def compareValues : List Value → List Value → Ordering
  | x :: xs, y :: ys => if x.orderKey y ≠ .eq then x.orderKey y else compareValues xs ys
  | xs, ys => compare xs.length ys.length

namespace SetOpExec

structure State (left right : Executor σ) where
  left : Option left.State
  right : Option right.State
  produced : Option (List Row)

variable (left right : Executor σ)

/-- Keep the first occurrence of each distinct row. -/
def dedup : List (List Value) → List Row → List Row
  | _, [] => []
  | seen, row :: rows =>
      if seen.any fun s => rowsEq s row.values then dedup seen rows
      else row :: dedup (seen ++ [row.values]) rows

def sortRows (rows : List Row) : List Row := sortBy (fun a b => compareValues a.values b.values) rows

/-- The rows of the set operation. -/
def combine (kind : SetOpKind) (all : Bool) (lrows rrows : List Row) : List Row :=
  let inRight (row : Row) := rrows.any fun r => rowsEq r.values row.values
  match kind with
  | .union => if all then lrows ++ rrows else sortRows (dedup [] (lrows ++ rrows))
  | .intersect => sortRows (dedup [] (lrows.filter inRight))
  | .except => sortRows (dedup [] (lrows.filter fun row => !inRight row))

def compute (kind : SetOpKind) (all : Bool) (fuel : Nat) :
    Exec (σ × State left right) SqlError (List Row) := do
  let self ← own
  let l ← Exec.lift (.orPanic "computed once" self.left)
  modifyOwn fun self => { self with left := none }
  let lrows ← drain left l fuel
  let r ← Exec.lift (.orPanic "computed once" self.right)
  modifyOwn fun self => { self with right := none }
  let rrows ← drain right r fuel
  return combine kind all lrows rrows

def next (kind : SetOpKind) (all : Bool) : Pull.Next σ (State left right) SqlError Row := fun fuel =>
  nextProduced State.produced (fun produced self => { self with produced })
    (compute left right kind all fuel)

end SetOpExec

end Squrust.Sql
