import Squrust.Core.BTree.Tree
import Squrust.Sql.Eval
import Squrust.Sql.Row
import Squrust.Sql.Schema

/-!
# INSERT, UPDATE and DELETE

The statements that change rows, on the b-tree of their table. INSERT stores its
tuples one after the other. UPDATE and DELETE first collect the rows their condition
holds for. What is read goes through a cursor or a lookup of the tree.

The calls of the tree have a budget of rounds; a statement gives each of them the
same one. The clock is what the current time is read from: it gives the time of the
reading for a column of a tuple.
-/

set_option autoImplicit false

namespace Squrust.Sql

open Squrust.Foundation

open Squrust.Core (StorageError PageSource PageSink PageId Audited Record BTree.get BTree.lastKey
  BTree.insert BTree.delete BTreeCursor BTreeCursor.next BTreeCursor.seekFirst)

/-! ## Plans -/

structure InsertPlan (Query : Type) where
  table : Text
  /-- For each value of a tuple, the column it is for. -/
  targetCols : List Nat
  rows : List (List (Expr Query))
  orReplace : Bool

structure UpdatePlan (Query : Type) where
  table : Text
  assignments : List (Nat × Expr Query)
  predicate : Option (Expr Query)

structure DeletePlan (Query : Type) where
  table : Text
  predicate : Option (Expr Query)

/-- What an INSERT answers. -/
structure InsertResult where
  count : Nat
  lastRowid : Int64
deriving DecidableEq

/-! ## The current time -/

/-- The time of a reading in seconds since 1970, for a tuple and a column. -/
abbrev Clock := Nat → Nat → Int

/-- `str.replace(from, to)` -/
def replaceAll (pattern new : Text) : Nat → Text → Text
  | 0, text => text
  | _ + 1, [] => []
  | rounds + 1, c :: rest =>
      if pattern.isPrefixOf (c :: rest) then
        new ++ replaceAll pattern new rounds ((c :: rest).drop pattern.length)
      else c :: replaceAll pattern new rounds rest

/-- A number with zeros in front, to some width. -/
def padded (width : Nat) (n : Int) : Text :=
  let digits := Nat.toDigits 10 n.natAbs
  let sign : Text := if n < 0 then ['-'] else []
  sign ++ List.replicate (width - sign.length - digits.length) '0' ++ digits

/-- The time in UTC, in the format of a `CURRENT_` default. -/
def nowUtc (secs : Int) (fmt : Text) : Text :=
  let days := secs.ediv 86400
  let tod := secs.emod 86400
  let (hh, mm, ss) := (tod.tdiv 3600, (tod.tmod 3600).tdiv 60, tod.tmod 60)
  let z := days + 719468
  let era := (if 0 ≤ z then z else z - 146096).tdiv 146097
  let doe := z - era * 146097
  let yoe := (doe - doe.tdiv 1460 + doe.tdiv 36524 - doe.tdiv 146096).tdiv 365
  let y := yoe + era * 400
  let doy := doe - (365 * yoe + yoe.tdiv 4 - yoe.tdiv 100)
  let mp := (5 * doy + 2).tdiv 153
  let d := doy - (153 * mp + 2).tdiv 5 + 1
  let m := if mp < 10 then mp + 3 else mp - 9
  let year := y + if m ≤ 2 then 1 else 0
  let put (pattern new text : Text) := replaceAll pattern new text.length text
  put "%S".toList (padded 2 ss) <| put "%M".toList (padded 2 mm) <| put "%H".toList (padded 2 hh) <|
    put "%d".toList (padded 2 d) <| put "%m".toList (padded 2 m) <| put "%Y".toList (padded 4 year) fmt

/-- Evaluate a column's `DEFAULT` for a fresh row. -/
def evalDefault (secs : Int) (col : Column) : Value :=
  match col.default with
  | none => .null
  | some (.value v) => v
  | some .currentTimestamp => .text (nowUtc secs "%Y-%m-%d %H:%M:%S".toList)
  | some .currentDate => .text (nowUtc secs "%Y-%m-%d".toList)
  | some .currentTime => .text (nowUtc secs "%H:%M:%S".toList)

example : nowUtc 1709210096 "%Y-%m-%d %H:%M:%S".toList = "2024-02-29 12:34:56".toList := by
  decide +kernel

/-! ## Errors -/

def notNullFailed (table : Table) (col : Column) : SqlError :=
  .constraint ("NOT NULL constraint failed: ".toList ++ table.name ++ ['.'] ++ col.name)

def uniqueFailed (table : Table) (column : Text) : SqlError :=
  .constraint ("UNIQUE constraint failed: ".toList ++ table.name ++ ['.'] ++ column)

/-! ## Values of a row -/

/-- `values[i] = v` -/
def setValue (values : List Value) (i : Nat) (v : Value) : Outcome SqlError (List Value) :=
  if i < values.length then .ok (values.set i v) else .panic "index out of bounds"

def coerceColumn (builtins : Builtins) (table : Table) (i : Nat) (v : Value) :
    Outcome SqlError Value := do
  let col ← Outcome.orPanic "index out of bounds" table.columns[i]?
  v.coerceTo builtins col.sqlType

/-- The loop of the NOT NULL check, over the columns and their values. -/
def checkColumns (table : Table) : List Column → List Value → Outcome SqlError Unit
  | [], _ => .ok ()
  | col :: cols, [] =>
      if col.notNull then .panic "index out of bounds" else checkColumns table cols []
  | col :: cols, v :: values =>
      if col.notNull && v.isNull then Outcome.err (notNullFailed table col)
      else checkColumns table cols values

def checkNotNull (table : Table) (values : List Value) : Outcome SqlError Unit :=
  checkColumns table table.columns values

/-- The row id takes the place of the alias column. -/
def withAlias (table : Table) (rowid : Int64) (values : List Value) : List Value :=
  match table.rowidAlias with
  | some a => values.set a (.integer rowid)
  | none => values

/-- Set the alias column to NULL before encoding. -/
def withAliasNulled (rowidAlias : Option Nat) (values : List Value) : List Value :=
  match rowidAlias with
  | some a => values.set a .null
  | none => values

/-- The record of a row. No allocation is so long that its length takes more bits. -/
def asRecord (row : Row) : Outcome SqlError Record :=
  if h : row.encode.length < 2 ^ 62 then .ok ⟨row.encode, h.trans (by decide)⟩
  else .panic "memory allocation failed"

/-- A record is read back as its values. -/
theorem decode_asRecord {row : Row} {record : Record} (encoded : asRecord row = .ok record) :
    Row.decode row.rowId record.val = .ok ⟨row.rowId, row.values.map Value.stored⟩ := by
  unfold asRecord at encoded
  split at encoded
  · next small =>
    obtain rfl := Except.ok.inj encoded
    exact Row.decode_encode (by rw [Row.InMemory]; omega)
  · cases encoded

section

variable {Query σ : Type} (builtins : Builtins) (fuel : Nat) (table : Table) (params : List Value)

/-! ## Scans -/

/-- The loop over the rows of a cursor. -/
def eachRow [PageSource σ] {β : Type} (visit : Int64 → Bytes → β → Outcome SqlError (ForInStep β)) :
    Nat → BTreeCursor → β → Exec σ SqlError β
  | 0, _, _ => Exec.outOfFuel
  | fuel + 1, cursor, result => do
      match ← Exec.mapError .storage (BTreeCursor.next fuel cursor) with
      | (none, _) => return result
      | (some (rowid, bytes), cursor) =>
          match ← Exec.lift (visit rowid bytes result) with
          | .done result => return result
          | .yield result => eachRow visit fuel cursor result

/-- The UNIQUE columns from the `i`-th on whose value is not NULL. The alias column is
left out: the key of the b-tree is already unique. -/
def uniqueFrom (values : List Value) : Nat → List Column → Outcome SqlError (List Nat)
  | _, [] => .ok []
  | i, col :: cols =>
      if col.unique ∧ some i ≠ table.rowidAlias then do
        let v ← Outcome.orPanic "index out of bounds" values[i]?
        let rest ← uniqueFrom values (i + 1) cols
        return if v.isNull then rest else i :: rest
      else uniqueFrom values (i + 1) cols

def uniqueCols (values : List Value) : Outcome SqlError (List Nat) :=
  uniqueFrom table values 0 table.columns

/-- `row.values.get(ci) == Some(&values[ci])` -/
def sameAt (stored values : List Value) (ci : Nat) : Bool :=
  match stored[ci]?, values[ci]? with
  | some x, some v => x.eq v
  | _, _ => false

/-- One row of the search for a conflict. -/
def visitConflict (unique : List Nat) (values : List Value) (exclude : Option Int64) (rowid : Int64)
    (bytes : Bytes) (found : Option (Nat × Int64)) :
    Outcome SqlError (ForInStep (Option (Nat × Int64))) :=
  if some rowid = exclude then .ok (.yield found)
  else do
    let row ← Row.decode rowid bytes
    match unique.find? (sameAt row.values values) with
    | some ci => return .done (some (ci, rowid))
    | none => return .yield found

/-- The first UNIQUE column conflict for the values of a row: a column and the row. -/
def findUniqueConflict [PageSource σ] (values : List Value) (exclude : Option Int64) :
    Exec σ SqlError (Option (Nat × Int64)) := do
  let unique ← Exec.lift (uniqueCols table values)
  if unique = [] then return none
  else
    let cursor ← Exec.mapError .storage (BTreeCursor.seekFirst fuel table.rootPage)
    eachRow (visitConflict unique values exclude) fuel cursor none

/-- One row of the scan of a condition. -/
def visitMatching (predicate : Option (Expr Query)) (rowid : Int64) (bytes : Bytes)
    (out : List (Int64 × List Value)) : Outcome SqlError (ForInStep (List (Int64 × List Value))) := do
  let row ← Row.decode rowid bytes
  let values := withAlias table rowid row.values
  let keep ←
    match predicate with
    | none => .ok true
    | some p => do .ok (← eval builtins ⟨values, rowid, params⟩ p).isTruthy
  return .yield (if keep then out ++ [(rowid, values)] else out)

/-- All rows whose predicate is truthy, all rows if there is none. -/
def scanMatching [PageSource σ] (predicate : Option (Expr Query)) :
    Exec σ SqlError (List (Int64 × List Value)) := do
  let cursor ← Exec.mapError .storage (BTreeCursor.seekFirst fuel table.rootPage)
  eachRow (visitMatching builtins table params predicate) fuel cursor []

/-- Code that only reads the pages. -/
def onPages {α : Type} (code : Exec σ SqlError α) : Exec (Audited σ) SqlError α :=
  Exec.onPart Audited.sink (fun sink audited => { audited with sink }) code

variable [PageSink σ]

def getRow (rowid : Int64) : Exec (Audited σ) SqlError (Option Bytes) :=
  onPages (Exec.mapError .storage (BTree.get fuel table.rootPage rowid))

def deleteRow (rowid : Int64) : Exec (Audited σ) SqlError Bool :=
  Exec.mapError .storage (BTree.delete fuel table.rootPage rowid)

/-- Store a row, with its alias column as NULL. -/
def putRow (rowid : Int64) (values : List Value) : Exec (Audited σ) SqlError Unit := do
  let record ← Exec.lift (asRecord ⟨rowid, withAliasNulled table.rowidAlias values⟩)
  Exec.mapError .storage (BTree.insert fuel table.rootPage rowid record)

/-! ## INSERT -/

/-- `tree.last_key(tx)?.unwrap_or(0) + 1` -/
def nextRowid : Exec (Audited σ) SqlError Int64 := do
  let last ← onPages (Exec.mapError .storage (BTree.lastKey fuel table.rootPage))
  let last := last.getD 0
  if last = Int64.maxValue then Exec.lift (.panic "attempt to add with overflow")
  else return last + 1

/-- The value of the alias column, if it is not NULL. -/
def givenRowid (values : List Value) : Outcome SqlError (Option Value) :=
  match table.rowidAlias with
  | none => .ok none
  | some idx => do
      let v ← Outcome.orPanic "index out of bounds" values[idx]?
      return if v.isNull then none else some v

/-- The id of a new row. -/
def chooseRowid (values : List Value) : Exec (Audited σ) SqlError Int64 := do
  match ← Exec.lift (givenRowid table values) with
  | some v =>
      Exec.lift (Outcome.orErr (.type "INTEGER PRIMARY KEY must be an integer".toList) v.asI64)
  | none => nextRowid fuel table

/-- Fill in the values of a tuple. -/
def fillIn : List (Nat × Expr Query) → List Value → Outcome SqlError (List Value)
  | [], values => .ok values
  | (slot, expr) :: rest, values => do
      let v ← eval builtins ⟨[], 0, params⟩ expr
      let v ← coerceColumn builtins table slot v
      let values ← setValue values slot v
      fillIn rest values

/-- The values of a new row: the defaults, and the tuple over them. -/
def newValues (plan : InsertPlan Query) (clock : Nat → Int) (rowExprs : List (Expr Query)) :
    Outcome SqlError (List Value) :=
  if rowExprs.length ≠ plan.targetCols.length then
    Outcome.err (.type (Nat.toDigits 10 rowExprs.length ++ " values for ".toList ++
      Nat.toDigits 10 plan.targetCols.length ++ " columns".toList))
  else
    fillIn builtins table params (plan.targetCols.zip rowExprs)
      (table.columns.mapIdx fun i col => evalDefault (clock i) col)

/-- Make way for a row, or fail. -/
def clearConflict (orReplace : Bool) : Option (Nat × Int64) → Exec (Audited σ) SqlError Unit
  | none => return ()
  | some (ci, conflictRowid) => do
      if orReplace then
        let _ ← deleteRow fuel table conflictRowid
      else
        let col ← Exec.lift (Outcome.orPanic "index out of bounds" table.columns[ci]?)
        Exec.err (uniqueFailed table col.name)

/-- The same for the row that has its id already. -/
def clearRowid (orReplace : Bool) (rowid : Int64) : Exec (Audited σ) SqlError Unit := do
  if (← getRow fuel table rowid).isSome then
    if orReplace then
      let _ ← deleteRow fuel table rowid
    else if table.rowidAlias.isSome then Exec.err (uniqueFailed table table.aliasName)

/-- Store a new row; the rows it replaces go first. -/
def storeNew (orReplace : Bool) (conflict : Option (Nat × Int64)) (rowid : Int64)
    (values : List Value) : Exec (Audited σ) SqlError Unit := do
  clearConflict fuel table orReplace conflict
  clearRowid fuel table orReplace rowid
  putRow fuel table rowid values

/-- One tuple of an INSERT; the id of its row. -/
def insertRow (plan : InsertPlan Query) (clock : Nat → Int) (rowExprs : List (Expr Query)) :
    Exec (Audited σ) SqlError Int64 := do
  let values ← Exec.lift (newValues builtins table params plan clock rowExprs)
  let rowid ← chooseRowid fuel table values
  let values := withAlias table rowid values
  Exec.lift (checkNotNull table values)
  let conflict ← onPages (findUniqueConflict fuel table values none)
  storeNew fuel table plan.orReplace conflict rowid values
  return rowid

/-- The tuples of an INSERT, the first of them the `k`-th. -/
def insertRows (plan : InsertPlan Query) (clock : Clock) :
    Nat → List (List (Expr Query)) → InsertResult → Exec (Audited σ) SqlError InsertResult
  | _, [], result => return result
  | k, rowExprs :: rows, result => do
      let rowid ← insertRow builtins fuel table params plan (clock k) rowExprs
      insertRows plan clock (k + 1) rows ⟨result.count + 1, rowid⟩

def insert (plan : InsertPlan Query) (clock : Clock) : Exec (Audited σ) SqlError InsertResult :=
  insertRows builtins fuel table params plan clock 0 plan.rows ⟨0, 0⟩

/-! ## UPDATE -/

/-- The new values of a row and its new id, assignment by assignment. -/
def assign (rowid : Int64) : List (Nat × Expr Query) → List Value → Int64 →
    Outcome SqlError (List Value × Int64)
  | [], values, newRowid => .ok (values, newRowid)
  | (colIdx, expr) :: rest, values, newRowid => do
      let v ← eval builtins ⟨values, rowid, params⟩ expr
      let coerced ← coerceColumn builtins table colIdx v
      let newRowid ←
        if table.rowidAlias = some colIdx then
          Outcome.orErr (.type "INTEGER PRIMARY KEY must be integer".toList) coerced.asI64
        else .ok newRowid
      let values ← setValue values colIdx coerced
      assign rowid rest values newRowid

/-- A changed row id must not be another row's. -/
def checkMove (rowid newRowid : Int64) : Exec (Audited σ) SqlError Unit :=
  if newRowid ≠ rowid then do
    if (← getRow fuel table newRowid).isSome then Exec.err (uniqueFailed table table.aliasName)
  else return ()

/-- A row whose id changes leaves its place. -/
def leavePlace (rowid newRowid : Int64) : Exec (Audited σ) SqlError Unit :=
  if newRowid ≠ rowid then do
    let _ ← deleteRow fuel table rowid
  else return ()

/-- One row of an UPDATE. -/
def updateRow (plan : UpdatePlan Query) (rowid : Int64) (values : List Value) :
    Exec (Audited σ) SqlError Unit := do
  let (values, newRowid) ← Exec.lift (assign builtins table params rowid plan.assignments values rowid)
  Exec.lift (checkNotNull table values)
  match ← onPages (findUniqueConflict fuel table values (some rowid)) with
  | some (ci, _) =>
      let col ← Exec.lift (Outcome.orPanic "index out of bounds" table.columns[ci]?)
      Exec.err (uniqueFailed table col.name)
  | none =>
      checkMove fuel table rowid newRowid
      leavePlace fuel table rowid newRowid
      putRow fuel table newRowid values

/-- The rows of an UPDATE; how many they are. -/
def updateRows (plan : UpdatePlan Query) :
    List (Int64 × List Value) → Nat → Exec (Audited σ) SqlError Nat
  | [], count => return count
  | (rowid, values) :: rows, count => do
      updateRow builtins fuel table params plan rowid values
      updateRows plan rows (count + 1)

def update (plan : UpdatePlan Query) : Exec (Audited σ) SqlError Nat := do
  let matching ← onPages (scanMatching builtins fuel table params plan.predicate)
  updateRows builtins fuel table params plan matching 0

/-! ## DELETE -/

/-- The rows of a DELETE; how many there were. -/
def deleteRows : List (Int64 × List Value) → Nat → Exec (Audited σ) SqlError Nat
  | [], count => return count
  | (rowid, _) :: rows, count => do
      if ← deleteRow fuel table rowid then deleteRows rows (count + 1) else deleteRows rows count

def delete (plan : DeletePlan Query) : Exec (Audited σ) SqlError Nat := do
  let matching ← onPages (scanMatching builtins fuel table params plan.predicate)
  deleteRows fuel table matching 0

end

/-! ## Statements -/

/-- A statement that changes rows. -/
inductive DmlPlan (Query : Type) where
  | insert (plan : InsertPlan Query)
  | update (plan : UpdatePlan Query)
  | delete (plan : DeletePlan Query)

/-- A statement with its parameters, and what it runs with. -/
structure Statement (Query : Type) where
  plan : DmlPlan Query
  params : List Value
  clock : Clock
  fuel : Nat

section

variable {Query σ : Type} [PageSink σ] (builtins : Builtins) (table : Table)

/-- Run a statement on its table; the number of rows it changed. -/
def Statement.run (statement : Statement Query) : Exec (Audited σ) SqlError Nat :=
  match statement.plan with
  | .insert plan => do
      let result ← insert builtins statement.fuel table statement.params plan statement.clock
      return result.count
  | .update plan => update builtins statement.fuel table statement.params plan
  | .delete plan => delete builtins statement.fuel table statement.params plan

/-- Run statements on one table, one after the other. -/
def runAll : List (Statement Query) → Exec (Audited σ) SqlError Unit
  | [] => return ()
  | statement :: rest => do
      let _ ← statement.run builtins table
      runAll rest

end

end Squrust.Sql
