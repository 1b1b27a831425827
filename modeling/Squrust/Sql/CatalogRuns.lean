import Squrust.Sql.CatalogMirror
import Squrust.Sql.NotNull

/-!
# The schema after reopening

From a new database on, in every run of statements that return, the schema that would be read from
the pages is the one in memory as long as each statement that changes it keeps the two in step
(`DdlPlan.Mirrored`), and the first one that does not tears them apart (`reloads_of_run`). Statements
that change rows are far from the catalog: the trees of tables share no page with it.
-/

set_option autoImplicit false

namespace Squrust.Sql

open Squrust.Foundation

open Squrust.Foundation.Exec (own modifyOwn onStore own_eq_ok modifyOwn_eq_ok onStore_eq_ok)

open Squrust.Core

/-! ## Records that are not too long -/

/-- No row has more values than its table has columns. -/
def Narrow (table : Table) (rows : Rows) : Prop :=
  ∀ entry ∈ rows, ∀ row, Row.decode entry.1 entry.2.val = .ok row → row.values.length ≤ table.columns.length

theorem narrow_invariant : RowInvariant Narrow where
  narrow holds := holds
  put := by
    intro table rows rowid values record holds _ short encoded entry member row read
    rcases Entries.mem_put.mp member with rfl | ⟨inside, _⟩
    · rw [decode_asRecord encoded] at read
      obtain rfl := Except.ok.inj read
      rwa [List.length_map, length_withAliasNulled]
    · exact holds entry inside row read
  drop _ holds entry member := holds entry (Entries.mem_drop.mp member).1

theorem Narrow.withColumn {table : Table} {column : Column} {sql : Text} {rows : Rows} (narrow : Narrow table rows) :
    Narrow (Catalog.withColumn table column sql) rows := by
  intro entry member row read
  simp only [Catalog.withColumn, List.length_append, List.length_singleton]
  exact (narrow entry member row read).trans (Nat.le_succ _)

/-! ## Rows of one tree -/

section

variable {σ : Type} [PageSource σ] [MapSource σ] {store : σ} {root : PageId} {rows rows' : Rows}
  {pages pages' : List PageId}

/-- A tree has its rows only. -/
theorem tree_rows_unique (tree : BTree.Tree (view store) root rows pages)
    (tree' : BTree.Tree (view store) root rows' pages') : rows = rows' := by
  refine ascending_ext tree.ascending tree'.ascending fun key record => ?_
  obtain ⟨after, returns, _⟩ := BTree.get_tree tree key
  obtain ⟨after', returns', _⟩ := BTree.get_tree tree' key
  have same := returns.unique returns'
  rw [← Entries.lookup_eq_some_iff tree.ascending, ← Entries.lookup_eq_some_iff tree'.ascending]
  have inj : Function.Injective (Option.map (Subtype.val : Record → Bytes)) :=
    Option.map_injective Subtype.val_injective
  rw [inj same]

end

/-! ## Requests -/

namespace Database

open Catalog (Mirrors)

variable {σ Sub Query : Type} [PageSink σ] [MapSink σ] {parser : SqlParser Sub} {builtins : Builtins}
  {db after : Database σ} {rows : Rows} {pages : List PageId}

/-- A statement that changes rows leaves the catalog. -/
theorem runDml_catalog (keeps : Keeps Narrow db) (tree : BTree.Tree (view db.1) catalogRoot rows pages)
    {statement : Statement Query} (run : Database.runDml builtins statement db = .ok () after)
    (fit : after.1.allFit = true) :
    after.2 = db.2 ∧ ∃ pages', BTree.Tree (view after.1) catalogRoot rows pages' := by
  obtain ⟨extent, forest, holds⟩ := keeps
  obtain ⟨catalog, between, read, rest⟩ := Exec.bind_eq_ok.mp run
  obtain ⟨rfl, rfl⟩ := own_eq_ok.mp read
  obtain ⟨table, between, lookedUp, rest⟩ := Exec.bind_eq_ok.mp rest
  obtain ⟨found, rfl⟩ := Exec.lift_eq_ok.mp lookedUp
  obtain ⟨count, between, onTable, rest⟩ := Exec.bind_eq_ok.mp rest
  obtain ⟨_, rfl⟩ := Exec.pure_eq_ok.mp rest
  obtain ⟨store, ran, rfl⟩ := onStore_eq_ok.mp onTable
  have known : db.2.tables.get? (Text.toAsciiLowercase statement.plan.table) = some table :=
    Outcome.orErr_eq_ok.mp found
  have rooted : rootOf db.2 (some (Text.toAsciiLowercase statement.plan.table)) = some table.rootPage := by
    simp only [rootOf, known, Option.map_some]
  obtain ⟨_, _, _, step, _⟩ :=
    narrow_invariant.statement (forest.tree _ _ rooted) (holds _ table known) ran fit
  have apart := forest.apart none (some (Text.toAsciiLowercase statement.plan.table)) (by simp) rfl
    (Option.isSome_iff_exists.mpr ⟨_, rooted⟩)
  have treeDb : BTree.Tree (view db.1.sink) catalogRoot rows pages := tree
  obtain rfl := tree_rows_unique treeDb (forest.tree none catalogRoot rfl)
  exact ⟨rfl, _, ((forest.tree none catalogRoot rfl).kept step apart).1⟩

theorem runDmls_catalog (keeps : Keeps Narrow db) (tree : BTree.Tree (view db.1) catalogRoot rows pages)
    {statements : List (Statement Query)} (run : Database.runDmls builtins statements db = .ok () after)
    (fit : after.1.allFit = true) :
    after.2 = db.2 ∧ ∃ pages', BTree.Tree (view after.1) catalogRoot rows pages' := by
  induction statements generalizing db pages with
  | nil =>
      obtain ⟨_, rfl⟩ := Exec.pure_eq_ok.mp run
      exact ⟨rfl, pages, tree⟩
  | cons statement rest ih =>
      obtain ⟨_, between, first, later⟩ := Exec.bind_eq_ok.mp run
      have fitBetween := tracks_runDmls rest later fit
      obtain ⟨same, pages', tree'⟩ := runDml_catalog keeps tree first fitBetween
      rw [← same]
      exact ih (keeps.runDml narrow_invariant first fitBetween) tree' later

/-- The trees are apart, and the rows of the catalog are those of the tables in memory. -/
structure Synced (parser : SqlParser Sub) (db : Database σ) : Prop where
  keeps : Keeps Narrow db
  mirrors : ∃ rows pages, BTree.Tree (view db.1) catalogRoot rows pages ∧ Mirrors parser rows db.2

theorem Synced.reloads (synced : Synced parser db) : Reloads parser db := by
  obtain ⟨rows, pages, tree, mirrors⟩ := synced.mirrors
  exact (reloads_iff tree mirrors).mpr ⟨rfl, rfl⟩

/-- A new database. -/
theorem synced_new (tree : BTree.Tree (view db.1) catalogRoot [] pages) (none : db.2 = .empty) :
    Synced parser db where
  keeps := .of_empty tree (by rw [none]; rfl)
  mirrors := by
    refine ⟨[], pages, tree, ?_⟩
    rw [none]
    exact ⟨fun _ _ held => (nomatch held), fun _ _ held => (nomatch held), fun _ _ known => (nomatch known), by simp⟩

/-- The texts that a request stores are read as they should be. -/
def StepReads (parser : SqlParser Sub) (step : Step Sub Query) (db : Database σ) : Prop :=
  match step.request with
  | .ddl statement => statement.Reads parser db.2
  | .dml _ => True

/-- A request keeps the pages and the catalog in memory in step. -/
def StepMirrored (parser : SqlParser Sub) (step : Step Sub Query) (db : Database σ) : Prop :=
  match step.request with
  | .ddl statement => ∀ plan, planDdl parser.display db.2 statement = .ok plan → plan.Mirrored db
  | .dml _ => True

theorem mirrors_congr {catalog other : Catalog} (mirrors : Mirrors parser rows catalog)
    (tables : catalog.tables = other.tables) (ids : catalog.catalogIds = other.catalogIds) :
    Mirrors parser rows other where
  named := tables ▸ mirrors.named
  listed := tables ▸ ids ▸ mirrors.listed
  stored := tables ▸ ids ▸ mirrors.stored
  known := ids ▸ mirrors.known

theorem Keeps.run_narrow (keeps : Keeps Narrow db) {display : SqlDisplay Sub} {step : Step Sub Query}
    (run : Database.run display builtins step db = .ok () after) (fit : after.1.allFit = true) :
    Keeps Narrow after := by
  refine keeps.run narrow_invariant (fun _ _ member => nomatch member)
    (fun _ _ _ _ narrow (_ : True) => narrow.withColumn) ?_ run fit
  unfold StepAdmits
  cases step.request with
  | ddl statement =>
      intro plan _
      cases plan with
      | alterTableAddColumn tableName column newSql => exact fun _ _ _ _ _ => trivial
      | _ => trivial
  | dml statements => trivial

/-- **Step.** After a request that returns, the catalog is read as it is in memory exactly if the
request keeps them in step. -/
theorem Synced.run (synced : Synced parser db) {step : Step Sub Query} (reads : StepReads parser step db)
    (run : Database.run parser.display builtins step db = .ok () after) (fit : after.1.allFit = true) :
    (Reloads parser after ↔ StepMirrored parser step db) ∧ (StepMirrored parser step db → Synced parser after) := by
  have keeps := synced.keeps.run_narrow run fit
  obtain ⟨rows, pages, tree, mirrors⟩ := synced.mirrors
  obtain ⟨request, fuel, failure⟩ := step
  cases request with
  | ddl statement =>
      obtain ⟨catalog, between, read, rest⟩ := Exec.bind_eq_ok.mp run
      obtain ⟨rfl, rfl⟩ := own_eq_ok.mp read
      obtain ⟨plan, between, lifted, rest⟩ := Exec.bind_eq_ok.mp rest
      obtain ⟨planned, rfl⟩ := Exec.lift_eq_ok.mp lifted
      have described := planDdl_described (fun name table found => (mirrors.named _ table found).2) reads planned
      obtain ⟨rows', pages', reread, tree', mirrors', inStep⟩ := rereads_runDdl tree mirrors described rest fit
      have only : StepMirrored parser (⟨.ddl statement, fuel, failure⟩ : Step Sub Query) db ↔ plan.Mirrored db := by
        refine ⟨fun each => each plan planned, fun mirrored other planned' => ?_⟩
        rwa [← Except.ok.inj (planned.symm.trans planned')]
      rw [only]
      refine ⟨(reloads_iff tree' mirrors').trans inStep, fun mirrored => ⟨keeps, rows', pages', tree', ?_⟩⟩
      obtain ⟨tables, ids⟩ := inStep.mpr mirrored
      exact mirrors_congr mirrors' tables ids
  | dml statements =>
      obtain ⟨same, pages', tree'⟩ := runDmls_catalog synced.keeps tree (autocommit_eq_ok.mp run).2 fit
      have after_synced : Synced parser after := ⟨keeps, rows, pages', tree', same ▸ mirrors⟩
      exact ⟨iff_of_true after_synced.reloads trivial, fun _ => after_synced⟩

/-- Requests each of which stores texts that are read, and keeps the pages and the catalog in memory
in step. -/
def RunMirrored (parser : SqlParser Sub) (builtins : Builtins) : List (Step Sub Query) → Database σ → Prop
  | [], _ => True
  | step :: rest, db =>
      StepReads parser step db ∧ StepMirrored parser step db ∧
        ∀ after, Database.run parser.display builtins step db = .ok () after → RunMirrored parser builtins rest after

theorem Synced.runAll (synced : Synced parser db) {steps : List (Step Sub Query)}
    (mirrored : RunMirrored parser builtins steps db)
    (run : Database.runAll parser.display builtins steps db = .ok () after) (fit : after.1.allFit = true) :
    Synced parser after := by
  induction steps generalizing db with
  | nil =>
      obtain ⟨_, rfl⟩ := Exec.pure_eq_ok.mp run
      exact synced
  | cons step rest ih =>
      obtain ⟨_, between, first, later⟩ := Exec.bind_eq_ok.mp run
      obtain ⟨reads, inStep, others⟩ := mirrored
      have next := (synced.run reads first (tracks_runAll rest later fit)).2 inStep
      exact ih next (others between first) later

end Database

/-! ## A column that is added twice -/

def columnA : ColumnDef Empty := ⟨['a'], "INTEGER".toList, []⟩

/-- The text of a table, and any other text as that with a column `a` more. -/
def parserOfT : SqlParser Empty where
  parse text := .ok [.createTable ⟨[['t']],
    if text = "CREATE TABLE t (a INTEGER)".toList then [columnA] else [columnA, columnA], [], false, []⟩]
  display := displayOf "CREATE TABLE t (a INTEGER)" "a INTEGER"

/-- `ALTER TABLE t ADD COLUMN IF NOT EXISTS a INTEGER` -/
def addAgain : Step Empty Empty := ⟨.ddl (.alterTable [['t']] [.addColumn columnA true]), 6, none⟩

theorem addAgain_returns : Exec.leaves (Database.runAll parserOfT.display .bare [createT]) newDatabase
    (fun _ after => after.1.allFit &&
      (after.2.getTable ['t']).any (fun table => decide (table.sql = "CREATE TABLE t (a INTEGER)".toList ∧
        (table.columnIndex ['a']).isSome)) &&
      Exec.leaves (Database.run parserOfT.display .bare addAgain) after fun _ final => final.1.allFit) = true := by
  decide +kernel

end Squrust.Sql
