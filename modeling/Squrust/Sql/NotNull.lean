import Squrust.Sql.ListSemantics
import Squrust.Sql.RowInvariants
import Squrust.Sql.Uniqueness

/-!
# NOT NULL columns

INSERT and UPDATE check the values they store. Rows that were stored before a column was
added have no value for it: a scan gives them the default. So no row that is read holds
NULL in a NOT NULL column as long as such a column is added with a default that is not
NULL, or to a table without rows (`Filled`, `select_notNull`).

ADD COLUMN refuses a NOT NULL column without a default, but takes one whose default is
NULL, or is no literal, which makes it NULL; and one that is there already is added again
when it comes with IF NOT EXISTS (`notNull_reads_null`).
-/

set_option autoImplicit false

namespace Squrust.Sql

open Squrust.Foundation

open Squrust.Core

/-! ## Rows without NULL -/

/-- The rows of a table can be read, and hold no NULL in a NOT NULL column, where a value they do
not have is the default. -/
structure NoNulls (table : Table) (rows : Rows) : Prop where
  readable : ∀ entry ∈ rows, ∃ row, Row.decode entry.1 entry.2.val = .ok row
  narrow : ∀ entry ∈ rows, ∀ row, Row.decode entry.1 entry.2.val = .ok row →
    row.values.length ≤ table.columns.length
  stored : ∀ entry ∈ rows, ∀ row, Row.decode entry.1 entry.2.val = .ok row →
    ∀ i col, table.columns[i]? = some col → col.notNull = true → some i ≠ table.rowidAlias →
      (row.values[i]?.getD (scanDefault col)).isNull = false

/-- A NOT NULL column that is added has a default that is not NULL, or the table has no rows. -/
def Filled (_table : Table) (column : Column) (rows : Rows) : Prop :=
  column.notNull = true → (scanDefault column).isNull = false ∨ rows = []

theorem checkColumns_ok {table : Table} {cols : List Column} {values : List Value}
    (checked : checkColumns table cols values = .ok ()) {i : Nat} {col : Column}
    (column : cols[i]? = some col) (notNull : col.notNull = true) :
    ∃ v, values[i]? = some v ∧ v.isNull = false := by
  induction cols generalizing values i with
  | nil => simp at column
  | cons first cols ih =>
      cases values with
      | nil =>
          rw [checkColumns] at checked
          split at checked
          · cases checked
          · next allowed =>
            cases i with
            | zero =>
                obtain rfl : first = col := by simpa using column
                exact absurd notNull allowed
            | succ i =>
                obtain ⟨v, found, _⟩ := ih checked column
                simp at found
      | cons v values =>
          rw [checkColumns] at checked
          split at checked
          · cases checked
          · next allowed =>
            cases i with
            | zero =>
                obtain rfl : first = col := by simpa using column
                refine ⟨v, rfl, ?_⟩
                simpa [notNull] using allowed
            | succ i => exact ih checked column

/-- The alias column is the only one that is not stored. -/
theorem getElem?_withAliasNulled {rowidAlias : Option Nat} {values : List Value} {i : Nat}
    (other : some i ≠ rowidAlias) : (withAliasNulled rowidAlias values)[i]? = values[i]? := by
  cases rowidAlias with
  | none => rfl
  | some a =>
      have apart : a ≠ i := fun same => other (by rw [same])
      exact List.getElem?_set_ne apart

theorem length_withAliasNulled (rowidAlias : Option Nat) (values : List Value) :
    (withAliasNulled rowidAlias values).length = values.length := by
  cases rowidAlias with
  | none => rfl
  | some a => exact List.length_set

theorem noNulls_invariant : RowInvariant NoNulls where
  narrow holds := holds.narrow
  put := by
    intro table rows rowid values record holds checked short encoded
    have decoded := decode_asRecord encoded
    refine ⟨fun entry member => ?_, fun entry member row read => ?_,
      fun entry member row read i col column notNull other => ?_⟩
    · rcases Entries.mem_put.mp member with rfl | ⟨inside, _⟩
      · exact ⟨_, decoded⟩
      · exact holds.readable entry inside
    · rcases Entries.mem_put.mp member with rfl | ⟨inside, _⟩
      · rw [decoded] at read
        obtain rfl := Except.ok.inj read
        rwa [List.length_map, length_withAliasNulled]
      · exact holds.narrow entry inside row read
    · rcases Entries.mem_put.mp member with rfl | ⟨inside, _⟩
      · rw [decoded] at read
        obtain rfl := Except.ok.inj read
        obtain ⟨v, found, present⟩ := checkColumns_ok checked column notNull
        rw [List.getElem?_map, getElem?_withAliasNulled other, found, Option.map_some,
          Option.getD_some, Value.isNull_stored]
        exact present
      · exact holds.stored entry inside row read i col column notNull other
  drop := by
    intro table rows rowid holds
    refine ⟨fun entry member => ?_, fun entry member => ?_, fun entry member => ?_⟩
    · exact holds.readable entry (Entries.mem_drop.mp member).1
    · exact holds.narrow entry (Entries.mem_drop.mp member).1
    · exact holds.stored entry (Entries.mem_drop.mp member).1

theorem NoNulls.nil (table : Table) : NoNulls table [] where
  readable _ member := by cases member
  narrow _ member := by cases member
  stored _ member := by cases member

/-- A further column finds rows that have no value for it. -/
theorem NoNulls.withColumn {table : Table} {column : Column} {sql : Text} {rows : Rows}
    (holds : NoNulls table rows) (filled : Filled table column rows) :
    NoNulls (Catalog.withColumn table column sql) rows where
  readable := holds.readable
  narrow entry member row read := by
    simp only [Catalog.withColumn, List.length_append, List.length_singleton]
    exact (holds.narrow entry member row read).trans (Nat.le_succ _)
  stored := by
    intro entry member row read i col found notNull other
    simp only [Catalog.withColumn] at found other
    by_cases old : i < table.columns.length
    · rw [List.getElem?_append_left old] at found
      exact holds.stored entry member row read i col found notNull other
    · have short := holds.narrow entry member row read
      rw [List.getElem?_append_right (not_lt.mp old)] at found
      obtain rfl : column = col := by
        cases place : i - table.columns.length with
        | zero => simpa [place] using found
        | succ n => simp [place] at found
      rw [List.getElem?_eq_none (short.trans (not_lt.mp old)), Option.getD_none]
      rcases filled notNull with present | none
      · exact present
      · rw [none] at member
        cases member

/-! ## What is read -/

/-- A row that is read from the record of a row without NULL holds none. -/
theorem NoNulls.row {table : Table} {rows : Rows} (holds : NoNulls table rows)
    {entry : Int64 × Record} (member : entry ∈ rows) :
    ∃ made, TableScan.row table.columns.length table.rowidAlias (table.columns.map scanDefault)
        entry.1 entry.2.val = .ok made ∧
      ∀ (i : Nat) (col : Column), table.columns[i]? = some col → col.notNull = true →
        ∃ v : Value, made.values[i]? = some v ∧ v.isNull = false := by
  obtain ⟨row, decoded⟩ := holds.readable entry member
  have short := holds.narrow entry member row decoded
  have stored := holds.stored entry member row decoded
  let values := row.values ++ (table.columns.map scanDefault).drop row.values.length
  have read := TableScan.row_of_decode table decoded
  have filled : ∀ (i : Nat) (col : Column), table.columns[i]? = some col →
      values[i]? = some (row.values[i]?.getD (scanDefault col)) := by
    intro i col column
    by_cases old : i < row.values.length
    · simp only [values, List.getElem?_append_left old, List.getElem?_eq_getElem old, Option.getD_some]
    · have place : row.values.length + (i - row.values.length) = i := by omega
      rw [List.getElem?_append_right (not_lt.mp old), List.getElem?_drop, place, List.getElem?_map, column,
        List.getElem?_eq_none (not_lt.mp old)]
      rfl
  refine ⟨_, read, fun i col column notNull => ?_⟩
  have held := filled i col column
  unfold withAlias
  cases aliased : table.rowidAlias with
  | none => exact ⟨_, held, stored i col column notNull (by simp [aliased])⟩
  | some a =>
      by_cases here : a = i
      · subst here
        exact ⟨.integer entry.1, List.getElem?_set_self (List.getElem?_eq_some_iff.mp held).1, rfl⟩
      · refine ⟨_, (List.getElem?_set_ne here).trans held, ?_⟩
        exact stored i col column notNull (by simpa [aliased] using Ne.symm here)

section

variable {σ Sub Query : Type} [PageSink σ] [MapSink σ] {db after : Database σ}
  {display : SqlDisplay Sub} {builtins : Builtins}

/-- **NOT NULL.** From a database without tables, requests that all succeeded, of which those that
add a NOT NULL column do so with a default that is not NULL or to a table without rows: then every
table can be read, and no row of it holds NULL in a NOT NULL column. -/
theorem select_notNull {rows : Rows} {pages : List PageId}
    (tree : BTree.Tree (view db.1) catalogRoot rows pages) (none : db.2.tables = .empty)
    {steps : List (Step Sub Query)}
    (admits : Database.RunAdmits display builtins Filled steps db)
    (run : Database.runAll display builtins steps db = .ok () after) (fit : after.1.allFit = true) :
    ∀ key table, after.2.tables.get? key = some table → ∃ found final,
      Exec.Returns (Pull.collectAll (build builtins [] (scanFor table : LogicalPlan Query) :
          Executor σ).next)
        (after.1.sink, (build builtins [] (scanFor table : LogicalPlan Query) : Executor σ).start)
        found final ∧
      ∀ row ∈ found, ∀ (i : Nat) (col : Column), table.columns[i]? = some col →
        col.notNull = true → ∃ v : Value, row.values[i]? = some v ∧ v.isNull = false := by
  obtain ⟨extent, forest, holds⟩ := (Database.Keeps.of_empty tree none).runAll noNulls_invariant
    NoNulls.nil (fun _ _ _ _ holds filled => holds.withColumn filled) admits run fit
  intro key table known
  have tree' : BTree.Tree (view after.1.sink) table.rootPage (extent (some key)).rows
      (extent (some key)).pages :=
    forest.tree (some key) table.rootPage (by simp only [Database.rootOf, known, Option.map_some])
  have whole := holds key table known
  let made (entry : Int64 × Record) : Row :=
    tableRow (table.columns.map fun c => ⟨c.name, some table.name, declOpt c.declType⟩)
      table.rowidAlias (table.columns.map scanDefault) entry
  have reads : ∀ entry ∈ (extent (some key)).rows,
      TableScan.row table.columns.length table.rowidAlias (table.columns.map scanDefault) entry.1
        entry.2.val = .ok (made entry) := by
    intro entry member
    obtain ⟨row, read, _⟩ := whole.row member
    simp only [made, tableRow, List.length_map, read]
    rfl
  let columns : List ColumnInfo :=
    table.columns.map fun c => ⟨c.name, some table.name, declOpt c.declType⟩
  have width : columns.length = table.columns.length := List.length_map _
  have scanned := reads
  rw [← width] at scanned
  have pulled : Pull.Yields _ (TableScan.next (σ := σ) _ columns _ _) _ _ :=
    TableScan.yields tree' Int64.minValue scanned
  obtain ⟨final, gives⟩ := pulled.collect
  obtain ⟨store, _, returns⟩ := gives after.1.sink rfl
  refine ⟨_, _, returns, fun row member i col column notNull => ?_⟩
  obtain ⟨entry, inside, rfl⟩ := List.mem_map.mp member
  have inRows := (List.mem_filter.mp inside).1
  obtain ⟨row, read, whole'⟩ := whole.row inRows
  rw [reads entry inRows] at read
  obtain rfl := Except.ok.inj read
  exact whole' i col column notNull

end

/-! ## A default that is NULL -/

/-- A new database in memory: an empty leaf on page 1. -/
def newDatabase : Database MemStore :=
  (Exec.reached (BTree.writeNode catalogRoot Node.emptyLeaf) ⟨MemStore.new, true⟩, .empty)

theorem newDatabase_tree : BTree.Tree (view newDatabase.1) catalogRoot [] [catalogRoot] := by
  have wrote : Exec.leaves (BTree.writeNode catalogRoot Node.emptyLeaf)
      (⟨MemStore.new, true⟩ : Audited MemStore) (fun _ after => after.allFit) = true := by
    decide +kernel
  obtain ⟨_, after, run, fit⟩ := Exec.exists_of_leaves wrote
  have body : Body (view (⟨MemStore.new, true⟩ : Audited MemStore)) 0 ⊥ ⊤ Node.emptyLeaf [] [] :=
    ⟨bot_lt_top, by simp, .nil, [], rfl, rfl, rfl, by simp⟩
  have inUse : view (⟨MemStore.new, true⟩ : Audited MemStore) catalogRoot ≠ .free := MemStore.new_inUse
  obtain ⟨subtree, _⟩ := BTree.writeNode_subtree body List.not_mem_nil inUse run fit
  have same := Exec.reached_of_ok run
  simp only [newDatabase, same]
  exact ⟨0, subtree, by simp⟩

/-- How the statements below are written. -/
def displayOf (createTable columnDef : String) : SqlDisplay Empty where
  expr _ := []
  query _ := []
  columnDef _ := columnDef.toList
  createTable _ := createTable.toList
  createIndex _ := []

def one : SqlExpr Empty := .value (.number ['1'])

/-- `CREATE TABLE t (a INTEGER)` -/
def createT : Step Empty Empty :=
  ⟨.ddl (.createTable ⟨[['t']], [⟨['a'], "INTEGER".toList, []⟩], [], false, []⟩), 6, none⟩

/-- `INSERT INTO t VALUES (1)` -/
def insertOne : Step Empty Empty :=
  ⟨.dml [⟨.insert ⟨['t'], [0], [[.literal (.integer 1)]], false⟩, [], fun _ _ => 0, 6⟩], 6, none⟩

/-- `ALTER TABLE t ADD COLUMN b INTEGER NOT NULL DEFAULT ...` -/
def addB (default : SqlExpr Empty) : Step Empty Empty :=
  ⟨.ddl (.alterTable [['t']] [.addColumn
    ⟨['b'], "INTEGER".toList, [.notNull, .default default]⟩ false]), 6, none⟩

/-- Read a table. -/
def selectAll (db : Database MemStore) (table : Table) : Option (List (List Value)) :=
  let exec : Executor MemStore := build .bare [] (scanFor table : LogicalPlan Empty)
  match Pull.collectAll exec.next 6 (db.1.sink, exec.start) with
  | .ok rows _ => some (rows.map Row.values)
  | .error _ _ => none

/-- A definition tells which column is added, whatever the catalog. -/
theorem admits_addColumn {σ Sub Query : Type} [PageSink σ] [MapSink σ] {display : SqlDisplay Sub}
    {db : Database σ} {name : List Text} {columnDef : ColumnDef Sub} {ifNotExists : Bool}
    {column : Column} (defined : columnFromAst display columnDef = .ok column)
    (filled : (scanDefault column).isNull = false) {fuel : Nat} {failure : Option StorageError} :
    Database.StepAdmits display Filled
      (⟨.ddl (.alterTable name [.addColumn columnDef ifNotExists]), fuel, failure⟩ :
        Step Sub Query) db := by
  intro plan planned
  obtain ⟨table, _, planned⟩ := Outcome.bind_eq_ok.mp planned
  obtain ⟨made, define, planned⟩ := Outcome.bind_eq_ok.mp planned
  rw [defined] at define
  obtain rfl := Except.ok.inj define
  have given : ∃ tableName sql, plan = .alterTableAddColumn tableName column sql := by
    split at planned
    · split at planned
      · exact ⟨_, _, (Outcome.pure_eq_ok.mp planned).symm⟩
      · cases planned
    · obtain ⟨_, _, planned⟩ := Outcome.bind_eq_ok.mp planned
      obtain ⟨_, _, planned⟩ := Outcome.bind_eq_ok.mp planned
      exact ⟨_, _, (Outcome.pure_eq_ok.mp planned).symm⟩
  obtain ⟨tableName, sql, rfl⟩ := given
  exact fun _ _ _ _ _ _ => .inl filled

theorem oneFilled_returns : Exec.leaves
    (Database.runAll (displayOf "CREATE TABLE t (a INTEGER)" "b INTEGER NOT NULL DEFAULT 1") .bare
      [createT, insertOne, addB one]) newDatabase
      (fun _ after => after.1.allFit && (after.2.getTable ['t']).isSome) = true := by
  decide +kernel

/-- A NOT NULL column with the default 1 is added to a table with a row. -/
theorem select_notNull_oneFilled : ∃ (after : Database MemStore) (table : Table)
    (found : List Row), after.2.getTable ['t'] = some table ∧
    (∃ final, Exec.Returns (Pull.collectAll (build .bare [] (scanFor table : LogicalPlan Empty) :
        Executor MemStore).next)
      (after.1.sink, (build .bare [] (scanFor table : LogicalPlan Empty) : Executor MemStore).start)
      found final) ∧
    ∀ row ∈ found, ∀ (i : Nat) (col : Column), table.columns[i]? = some col → col.notNull = true →
      ∃ v : Value, row.values[i]? = some v ∧ v.isNull = false := by
  obtain ⟨_, after, run, fits⟩ := Exec.exists_of_leaves oneFilled_returns
  rw [Bool.and_eq_true] at fits
  obtain ⟨fit, present⟩ := fits
  obtain ⟨table, known⟩ := Option.isSome_iff_exists.mp present
  have admits : Database.RunAdmits (displayOf "CREATE TABLE t (a INTEGER)" "b INTEGER NOT NULL DEFAULT 1")
      .bare Filled [createT, insertOne, addB one] newDatabase := by
    refine ⟨fun plan planned => ?_, fun _ _ => ⟨trivial, fun _ _ => ⟨?_, fun _ _ => trivial⟩⟩⟩
    · obtain ⟨made, _, planned⟩ := Outcome.bind_eq_ok.mp planned
      obtain rfl := Outcome.pure_eq_ok.mp planned
      trivial
    · have filled : (scanDefault ⟨['b'], "INTEGER".toList, .integer, true, false, false,
          some (.value (.integer 1))⟩).isNull = false := rfl
      exact admits_addColumn rfl filled
  obtain ⟨found, final, returns, whole⟩ :=
    select_notNull newDatabase_tree rfl admits run fit ['t'] table known
  exact ⟨after, table, found, known, ⟨final, returns⟩, whole⟩

/-- A NOT NULL column with the default `(1 + 1)` is added, and a row that is read holds NULL in it. -/
theorem notNull_reads_null : ∃ after table,
    Database.runAll (displayOf "CREATE TABLE t (a INTEGER)" "b INTEGER NOT NULL DEFAULT (1 + 1)") .bare
      [createT, insertOne, addB (.nested (.binaryOp one .plus one))] newDatabase = .ok () after ∧
    after.2.getTable ['t'] = some table ∧ table.columns.map Column.notNull = [false, true] ∧
    selectAll after table = some [[.integer 1, .null]] := by
  have runs : Exec.leaves
      (Database.runAll (displayOf "CREATE TABLE t (a INTEGER)" "b INTEGER NOT NULL DEFAULT (1 + 1)") .bare
        [createT, insertOne, addB (.nested (.binaryOp one .plus one))]) newDatabase
      (fun _ after => (after.2.getTable ['t']).any fun table =>
        table.columns.map Column.notNull = [false, true] ∧
          selectAll after table = some [[.integer 1, .null]]) = true := by
    decide +kernel
  obtain ⟨_, after, run, holds⟩ := Exec.exists_of_leaves runs
  obtain ⟨table, known, read⟩ := Option.any_eq_true _ _ |>.mp holds
  exact ⟨after, table, run, known, of_decide_eq_true read⟩

end Squrust.Sql
