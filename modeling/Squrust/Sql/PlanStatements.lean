import Squrust.Sql.Planner

/-!
# Plans of statements

Statements of every kind, from what was parsed to what is run: a query becomes a tree of operators
with constants folded, INSERT, UPDATE and DELETE the expressions they store and the condition of
the rows they change.
-/

set_option autoImplicit false

namespace Squrust.Sql

open Squrust.Foundation

/-! ## Syntax -/

section

variable (Sub : Type)

structure Insert where
  tableName : List Text
  columns : List Text
  /-- The body of the query the rows come from. -/
  source : Option (SetExpr Sub)
  /-- `INSERT OR REPLACE`, or `REPLACE INTO` -/
  orReplace : Bool

inductive AssignmentTarget where
  | columnName (name : List Text)
  | other (display : Text)

structure Assignment where
  target : AssignmentTarget
  value : SqlExpr Sub

structure Update where
  relation : TableFactor
  assignments : List (Assignment Sub)
  selection : Option (SqlExpr Sub)

structure Delete where
  from_ : List (TableWithJoins Sub)
  selection : Option (SqlExpr Sub)

inductive SqlStatement where
  | query (q : SqlQuery Sub)
  | insert (insert : Insert Sub)
  | update (update : Update Sub)
  | delete (del : Delete Sub)
  | ddl (statement : DdlStatement Sub)
  | other (display : Text)

/-- The plan of a statement. -/
inductive StatementPlan where
  | query (plan : LogicalPlan Sub) (columns : List ColumnInfo)
  | insert (plan : InsertPlan Sub)
  | update (plan : UpdatePlan Sub)
  | delete (plan : DeletePlan Sub)
  | ddl (plan : DdlPlan)

end

/-! ## Planning -/

section

variable {Sub : Type} (display : SqlDisplay Sub) (catalog : Catalog)

/-- The column of a name, or an error. -/
def targetColumn (table : Table) (name : Text) : Outcome SqlError Nat :=
  Outcome.orErr (.notFound ("column `".toList ++ name ++ ['`'])) (table.columnIndex name)

/-- The columns the values of a tuple are for: all of them, unless they are named. -/
def targetColumns (table : Table) (names : List Text) : Outcome SqlError (List Nat) :=
  if names.isEmpty then .ok (List.range table.columns.length) else names.mapM (targetColumn table)

/-- The tuples of VALUES. No column has a name in them. -/
def resolveRows : List (List (SqlExpr Sub)) → Resolve (List (List (Expr Sub)))
  | [] => return []
  | row :: rest => do
      let row ← resolveList [] row
      return row :: (← resolveRows rest)

def planInsert (insert : Insert Sub) : Resolve (InsertPlan Sub) := do
  let table ← Exec.lift (catalog.lookup (objectNameToString insert.tableName))
  let targetCols ← Exec.lift (targetColumns table insert.columns)
  let source ← Exec.lift (Outcome.orErr (.unsupported "INSERT without VALUES".toList) insert.source)
  match source with
  | .values rows => return ⟨table.name, targetCols, ← resolveRows rows, insert.orReplace⟩
  | other => Exec.err (.unsupported ("INSERT source: ".toList ++ display.query other))

def assignmentColumn (table : Table) : AssignmentTarget → Outcome SqlError Nat
  | .columnName name => targetColumn table (objectNameToString name)
  | .other display => Outcome.err (.unsupported ("assignment target ".toList ++ display))

/-- The columns that are assigned, with their values, from the first on. -/
def resolveAssignments (table : Table) : List (Assignment Sub) → Resolve (List (Nat × Expr Sub))
  | [] => return []
  | a :: rest => do
      let idx ← Exec.lift (assignmentColumn table a.target)
      let value ← resolveExpr (tableScope table) a.value
      return (idx, value) :: (← resolveAssignments table rest)

def planUpdate (update : Update Sub) : Resolve (UpdatePlan Sub) := do
  let (name, _) ← Exec.lift (tableFactor update.relation)
  let table ← Exec.lift (catalog.lookup name)
  let assignments ← resolveAssignments table update.assignments
  let predicate ← resolveOption (tableScope table) update.selection
  return ⟨table.name, assignments, predicate⟩

def planDelete (del : Delete Sub) : Resolve (DeletePlan Sub) := do
  let twj ← Exec.lift (Outcome.orErr (.parse "DELETE without table".toList) del.from_.head?)
  let (name, _) ← Exec.lift (tableFactor twj.relation)
  let table ← Exec.lift (catalog.lookup name)
  let predicate ← resolveOption (tableScope table) del.selection
  return ⟨table.name, predicate⟩

/-- Translate one parsed statement into a plan. -/
def plan : SqlStatement Sub → Outcome SqlError (StatementPlan Sub)
  | .query q => do
      let (plan, columns) ← planSelect display catalog q
      return .query plan columns
  | .insert insert => do return .insert (← Resolve.alone (planInsert display catalog insert))
  | .update update => do return .update (← Resolve.alone (planUpdate catalog update))
  | .delete del => do return .delete (← Resolve.alone (planDelete catalog del))
  | .ddl statement => do return .ddl (← planDdl display catalog statement)
  | .other display => Outcome.err (.unsupported ("statement: ".toList ++ display))

/-- The plan of a subquery, which has no parameters outside of the conditions of joins. -/
def planSubquery (q : SqlQuery Sub) : Outcome SqlError (LogicalPlan Sub) :=
  match planQuery display catalog q 0 with
  | .error fault _ => .error fault
  | .ok plan nextParam => do
      let plan ← foldPlan plan
      if 0 < nextParam then
        Outcome.err (.unsupported "bind parameters inside subqueries are not supported".toList)
      else return plan

end

end Squrust.Sql
