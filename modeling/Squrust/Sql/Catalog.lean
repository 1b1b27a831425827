import Mathlib.Data.Char
import Mathlib.Data.List.Lex
import Squrust.Foundation.FiniteMap
import Squrust.Foundation.Pull
import Squrust.Sql.Ddl
import Squrust.Sql.Dml
import Squrust.Sql.Plan

/-!
# The catalog

The schema in memory, and the b-tree on page 1 it is stored in: a row for each table,
with its name, its root page and the text of its definition. The definitions of tables
and the plans of statements that change the schema are in the words of the planner.

A hash map is a finite map here; the order in which it is walked is that of its keys.
-/

set_option autoImplicit false

namespace Squrust.Sql

open Squrust.Foundation

open Squrust.Foundation.Exec (own modifyOwn onStore)

open Squrust.Core (PageId PageSource PageSink Audited BTreeCursor.seekFirst BTree.lastKey BTree.insert
  BTree.delete)

/-- Root page of the catalog's b-tree. -/
def catalogRoot : PageId := 1

/-- A statement as it is stored in the catalog. -/
inductive SchemaStatement (Sub : Type) where
  | createTable (ct : CreateTable Sub)
  | createIndex (ci : CreateIndex Sub)
  | other

/-- The SQL parser: the statements of a text, or a message, and syntax as text. -/
structure SqlParser (Sub : Type) where
  parse : Text → Except Text (List (SchemaStatement Sub))
  display : SqlDisplay Sub

/-- The schema in memory, by names in lower case. -/
structure Catalog where
  tables : FiniteMap Text Table
  indexes : FiniteMap Text Index
  /-- The row of an entry. -/
  catalogIds : FiniteMap Text Int64
deriving DecidableEq

section

variable {Sub : Type} (parser : SqlParser Sub)

/-- `parser::parse` -/
def SqlParser.statements (sql : Text) : Outcome SqlError (List (SchemaStatement Sub)) :=
  match parser.parse sql with
  | .ok stmts => .ok stmts
  | .error message => Outcome.err (.parse message)

def parseCreateTable (sql : Text) : Outcome SqlError Table := do
  match ← parser.statements sql with
  | [] => Outcome.err (.parse "empty statement".toList)
  | .createTable ct :: _ => tableFromAst parser.display ct sql
  | _ => Outcome.err (.schema "expected CREATE TABLE".toList)

def parseCreateIndex (sql : Text) : Outcome SqlError Index := do
  match ← parser.statements sql with
  | .createIndex ci :: _ => indexFromAst parser.display ci sql
  | _ => Outcome.err (.schema "expected CREATE INDEX".toList)

end

/-- A value of a catalog row as text. -/
def entryText (values : List Value) (idx : Nat) : Text :=
  match values[idx]? with
  | some v => v.toDisplayString
  | none => []

/-- The row of a table or an index. -/
def entryRow (rowid : Int64) (entryType name tblName : Text) (rootpage : PageId) (sql : Text) : Row :=
  ⟨rowid, [.text entryType, .text name, .text tblName, .integer (Int64.ofNat rootpage.toNat),
    .text sql]⟩

namespace Catalog

def empty : Catalog := ⟨.empty, .empty, .empty⟩

def getTable (self : Catalog) (name : Text) : Option Table :=
  self.tables.get? (Text.toAsciiLowercase name)

/-- The table, or an error. -/
def lookup (self : Catalog) (name : Text) : Outcome SqlError Table :=
  Outcome.orErr (.notFound ("table `".toList ++ name ++ ['`'])) (self.getTable name)

/-! ## Reading the catalog -/

section

variable {Sub : Type} (parser : SqlParser Sub)

/-- Take in a row. -/
def absorb (self : Catalog) (rowid : Int64) (row : Row) : Outcome SqlError Catalog := do
  let entryType := entryText row.values 0
  let name := entryText row.values 1
  let rootpage := ((row.values[3]?.bind Value.asI64).getD 0).toUInt64.toUInt32
  let sql := entryText row.values 4
  if entryType = "table".toList then
    let table ← parseCreateTable parser sql
    return { self with
      catalogIds := self.catalogIds.insert (Text.toAsciiLowercase name) rowid
      tables := self.tables.insert (Text.toAsciiLowercase table.name)
        { table with rootPage := rootpage } }
  else if entryType = "index".toList then
    let index ← parseCreateIndex parser sql
    return { self with
      catalogIds := self.catalogIds.insert (Text.toAsciiLowercase name) rowid
      indexes := self.indexes.insert (Text.toAsciiLowercase index.name) index }
  else Outcome.err (.schema ("unknown catalog entry ".toList ++ entryType))

/-- One row of the catalog's tree. -/
def visitEntry (rowid : Int64) (bytes : Bytes) (self : Catalog) :
    Outcome SqlError (ForInStep Catalog) := do
  let row ← Row.decode rowid bytes
  return .yield (← self.absorb parser rowid row)

/-- Rebuild the catalog from its tree. -/
def load {σ : Type} [PageSource σ] (fuel : Nat) : Exec σ SqlError Catalog := do
  let cursor ← Exec.mapError .storage (BTreeCursor.seekFirst fuel catalogRoot)
  eachRow (visitEntry parser) fuel cursor empty

end

/-! ## Changing the catalog -/

section

variable {σ : Type} [PageSink σ] (fuel : Nat)

/-- `tree.last_key(sink)?.unwrap_or(0) + 1` -/
def nextEntry : Exec (Audited σ) SqlError Int64 := do
  let last ← onPages (Exec.mapError .storage (BTree.lastKey fuel catalogRoot))
  let last := last.getD 0
  if last = Int64.maxValue then Exec.lift (.panic "attempt to add with overflow")
  else return last + 1

/-- Store the row of an entry. -/
def putEntry (row : Row) : Exec (Audited σ) SqlError Unit := do
  let record ← Exec.lift (asRecord row)
  Exec.mapError .storage (BTree.insert fuel catalogRoot row.rowId record)

def deleteEntry (rowid : Int64) : Exec (Audited σ) SqlError Bool :=
  Exec.mapError .storage (BTree.delete fuel catalogRoot rowid)

def insertEntry (entryType name tblName : Text) (rootpage : PageId) (sql : Text) :
    Exec (Audited σ) SqlError Int64 := do
  let next ← nextEntry fuel
  putEntry fuel (entryRow next entryType name tblName rootpage sql)
  return next

/-- Store a new table, and keep it in memory. -/
def addTable (table : Table) : Exec (Audited σ × Catalog) SqlError Unit := do
  let rowid ← onStore (insertEntry fuel "table".toList table.name table.name table.rootPage table.sql)
  modifyOwn fun self => { self with
    catalogIds := self.catalogIds.insert (Text.toAsciiLowercase table.name) rowid }
  modifyOwn fun self => { self with
    tables := self.tables.insert (Text.toAsciiLowercase table.name) table }

/-- An index is kept in memory only. -/
def addIndex (index : Index) : Exec (Audited σ × Catalog) SqlError Unit :=
  modifyOwn fun self => { self with
    indexes := self.indexes.insert (Text.toAsciiLowercase index.name) index }

/-- A table with a further column. -/
def withColumn (table : Table) (column : Column) (newSql : Text) : Table :=
  { table with
    columns := table.columns ++ [column]
    sql := newSql
    aliasInRange := fun a given => (table.aliasInRange a given).trans_le (by simp) }

/-- Append a column to a table, in its row and in memory. -/
def alterAddColumn (tableName : Text) (column : Column) (newSql : Text) :
    Exec (Audited σ × Catalog) SqlError Unit := do
  let key := Text.toAsciiLowercase tableName
  let missing : SqlError := .notFound ("table `".toList ++ tableName ++ ['`'])
  let self ← own
  let table ← Exec.lift (Outcome.orErr missing (self.tables.get? key))
  let rowid ← Exec.lift (Outcome.orErr missing (self.catalogIds.get? key))
  onStore (putEntry fuel (entryRow rowid "table".toList table.name table.name table.rootPage newSql))
  modifyOwn fun self => { self with tables := self.tables.insert key (withColumn table column newSql) }

/-- Take an entry out of the rows, if it is there. -/
def dropEntry (key : Text) : Exec (Audited σ × Catalog) SqlError Unit := do
  let self ← own
  match self.catalogIds.get? key with
  | none => return ()
  | some rowid => do
      modifyOwn fun self => { self with catalogIds := self.catalogIds.erase key }
      let _ ← onStore (deleteEntry fuel rowid)

/-- Drop indexes. -/
def dropIndexes : List Text → Exec (Audited σ × Catalog) SqlError Unit
  | [] => return ()
  | key :: keys => do
      dropEntry fuel key
      modifyOwn fun self => { self with indexes := self.indexes.erase key }
      dropIndexes keys

/-- The indexes of a table. -/
def dependent (self : Catalog) (name : Text) : List Text :=
  (self.indexes.entries.filter fun entry =>
    Text.toAsciiLowercase entry.2.table = Text.toAsciiLowercase name).map fun entry =>
      Text.toAsciiLowercase entry.2.name

/-- Remove a table with its indexes; whether it was there. -/
def dropTable (name : Text) : Exec (Audited σ × Catalog) SqlError Bool := do
  let key := Text.toAsciiLowercase name
  let self ← own
  if (self.tables.get? key).isNone then return false
  else do
    dropEntry fuel key
    modifyOwn fun self => { self with tables := self.tables.erase key }
    dropIndexes fuel (self.dependent name)
    return true

end

end Catalog

/-! ## Plans -/

/-- A new index, or a table, or a change of one. -/
inductive DdlPlan where
  | createTable (table : Table) (ifNotExists : Bool)
  | createIndex (index : Index) (ifNotExists : Bool)
  | dropTable (name : Text) (ifExists : Bool)
  | alterTableAddColumn (table : Text) (column : Column) (newSql : Text)

inductive AlterTableOperation (Sub : Type) where
  | addColumn (columnDef : ColumnDef Sub) (ifNotExists : Bool)
  | other (display : Text)

/-- A statement that changes the schema. -/
inductive DdlStatement (Sub : Type) where
  | createTable (ct : CreateTable Sub)
  | createIndex (ci : CreateIndex Sub)
  | drop (isTable : Bool) (objectType : Text) (ifExists : Bool) (names : List (List Text))
  | alterTable (name : List Text) (operations : List (AlterTableOperation Sub))

section

variable {Sub : Type} (display : SqlDisplay Sub) (catalog : Catalog)

/-- The stored text with one column more, before its closing parenthesis. -/
def spliceColumn (oldSql columnDef : Text) : Outcome SqlError Text := do
  let (before, behind) ← Outcome.orErr (.schema "malformed CREATE TABLE text".toList)
    (Text.splitAtLast (fun c => c == ')') oldSql)
  return Text.trimEnd before ++ ", ".toList ++ columnDef ++ [')'] ++ behind

/-- Which columns can be added: no key, no UNIQUE column, and none that is NOT NULL without a
default or has one that is not constant. -/
def checkAdded (column : Column) : Outcome SqlError Unit :=
  if column.primaryKey then Outcome.err (.unsupported "cannot add a PRIMARY KEY column".toList)
  else if column.unique then Outcome.err (.unsupported "cannot add a UNIQUE column".toList)
  else
    match column.default with
    | none =>
        if column.notNull then
          Outcome.err (.constraint "cannot add a NOT NULL column with no default value".toList)
        else .ok ()
    | some (.value _) => .ok ()
    | some _ => Outcome.err (.unsupported "cannot add a column with a non-constant default".toList)

def planAlterTable (name : List Text) (operations : List (AlterTableOperation Sub)) :
    Outcome SqlError DdlPlan := do
  let tableName := objectNameToString name
  let table ← catalog.lookup tableName
  match operations with
  | [.addColumn columnDef ifNotExists] =>
      let column ← columnFromAst display columnDef
      if (table.columnIndex column.name).isSome then
        if ifNotExists then return .alterTableAddColumn tableName column table.sql
        else Outcome.err (.constraint ("duplicate column name: ".toList ++ column.name))
      else do
        checkAdded column
        return .alterTableAddColumn tableName column
          (← spliceColumn table.sql (display.columnDef columnDef))
  | [.other op] => Outcome.err (.unsupported ("ALTER TABLE ".toList ++ op))
  | _ => Outcome.err (.unsupported "only a single ALTER TABLE operation is supported".toList)

/-- The arms of `plan` for statements that change the schema. -/
def planDdl : DdlStatement Sub → Outcome SqlError DdlPlan
  | .createTable ct => do
      return .createTable (← tableFromAst display ct (display.createTable ct)) ct.ifNotExists
  | .createIndex ci => do
      return .createIndex (← indexFromAst display ci (display.createIndex ci)) ci.ifNotExists
  | .drop isTable objectType ifExists names =>
      if isTable then do
        let name ← Outcome.orErr (.parse "DROP with no name".toList) names.head?
        return .dropTable (objectNameToString name) ifExists
      else Outcome.err (.unsupported ("DROP ".toList ++ objectType))
  | .alterTable name operations => planAlterTable display catalog name operations

end

/-! ## Scans -/

/-- The declared type, unless it is empty. -/
def declOpt (decl : Text) : Option Text := if decl = [] then none else some decl

/-- What a scan fills a missing column up with. -/
def scanDefault (column : Column) : Value :=
  match column.default with
  | some (.value v) => v
  | _ => .null

def scanFor {Query : Type} (table : Table) : LogicalPlan Query :=
  .scan table.name table.rootPage
    (table.columns.map fun c => ⟨c.name, some table.name, declOpt c.declType⟩)
    table.rowidAlias (table.columns.map scanDefault)

end Squrust.Sql
