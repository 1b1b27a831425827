import Squrust.Sql.NotNull
import Squrust.Sql.RowChanges

/-!
# The database as tables of rows

What the database is for, apart from its pages: tables by their names, each with its rows
(`Tables`). CREATE TABLE adds a table without rows, ALTER TABLE changes the columns and no row, DROP
TABLE takes a table away, and a statement that changes rows has its effect on those of one table
(`Request.Effect`).

The trees on the pages hold such tables (`Database.Holds`), and each request that returns takes them
where its effect does (`Database.Holds.run`); one that changes rows and fails leaves everything as
it was. So does every run of them, from a new database on (`Database.holds_of_attempts`).
-/

set_option autoImplicit false

namespace Squrust.Sql

open Squrust.Foundation

open Squrust.Foundation.Exec (own modifyOwn onStore own_eq_ok modifyOwn_eq_ok onStore_eq_ok)

open Squrust.Core

/-! ## Tables -/

/-- The tables there are, by their names in lower case, each with its rows. -/
abbrev Tables := Text → Option (Table × Rows)

section

variable {Sub Query : Type}

def DdlPlan.Effect (plan : DdlPlan) (before after : Tables) : Prop :=
  match plan with
  | .createTable table _ =>
      if (before (Text.toAsciiLowercase table.name)).isSome then after = before
      else ∃ root, after = Function.update before (Text.toAsciiLowercase table.name)
        (some ({ table with rootPage := root }, []))
  | .createIndex _ _ => after = before
  | .dropTable name _ => after = Function.update before (Text.toAsciiLowercase name) none
  | .alterTableAddColumn name column newSql =>
      ∃ table rows, before (Text.toAsciiLowercase name) = some (table, rows) ∧
        after = Function.update before (Text.toAsciiLowercase name)
          (some (Catalog.withColumn table column newSql, rows))

variable (display : SqlDisplay Sub) (builtins : Builtins)

def Statement.Changes (statement : Statement Query) (before after : Tables) : Prop :=
  ∃ table rows rows' count,
    before (Text.toAsciiLowercase statement.plan.table) = some (table, rows) ∧
    statement.plan.Effect builtins table statement.params statement.clock rows rows' count ∧
    after = Function.update before (Text.toAsciiLowercase statement.plan.table) (some (table, rows'))

/-- Statements, one after the other. -/
inductive Statement.ChangesAll : List (Statement Query) → Tables → Tables → Prop
  | nil (tables : Tables) : ChangesAll [] tables tables
  | cons {statement : Statement Query} {rest : List (Statement Query)} {before between after : Tables}
      (first : statement.Changes builtins before between) (later : ChangesAll rest between after) :
      ChangesAll (statement :: rest) before after

/-- What a request that returns makes of the tables. A statement that changes the schema is planned
with the tables there are. -/
def Request.Effect (request : Request Sub Query) (before after : Tables) : Prop :=
  match request with
  | .ddl statement =>
      ∃ catalog plan, (∀ key, catalog.tables.get? key = (before key).map Prod.fst) ∧
        planDdl display catalog statement = .ok plan ∧ plan.Effect before after
  | .dml statements => Statement.ChangesAll builtins statements before after

/-- Requests and whether they returned. One that failed has no effect. -/
inductive History : List (Step Sub Query × Bool) → Tables → Tables → Prop
  | nil (tables : Tables) : History [] tables tables
  | returned {step : Step Sub Query} {rest : List (Step Sub Query × Bool)} {before between after : Tables}
      (effect : step.request.Effect display builtins before between) (later : History rest between after) :
      History ((step, true) :: rest) before after
  | failed {step : Step Sub Query} {rest : List (Step Sub Query × Bool)} {before after : Tables}
      (later : History rest before after) : History ((step, false) :: rest) before after

end

/-! ## Names -/

/-- Each table is under its own name. -/
def Named (tables : Tables) : Prop :=
  ∀ key table rows, tables key = some (table, rows) → Text.toAsciiLowercase table.name = key

section

variable {Sub Query : Type} {display : SqlDisplay Sub} {builtins : Builtins} {before after : Tables}

theorem Named.update (named : Named before) {key : Text} (table : Table)
    (own : Text.toAsciiLowercase table.name = key) (rows : Rows) : Named (Function.update before key (some (table, rows))) := by
  intro other found held known
  by_cases here : other = key
  · subst here
    rw [Function.update_self] at known
    obtain ⟨rfl, rfl⟩ := Prod.mk.inj (Option.some.inj known)
    exact own
  · rw [Function.update_of_ne here] at known
    exact named other found held known

theorem DdlPlan.Effect.named {plan : DdlPlan} (effect : plan.Effect before after) (named : Named before) :
    Named after := by
  cases plan with
  | createTable table ifNotExists =>
      rw [DdlPlan.Effect] at effect
      split at effect
      · rwa [effect]
      · obtain ⟨root, rfl⟩ := effect
        exact named.update { table with rootPage := root } rfl []
  | createIndex index ifNotExists =>
      obtain rfl := effect
      exact named
  | dropTable name ifExists =>
      obtain rfl := effect
      intro key table rows known
      by_cases here : key = Text.toAsciiLowercase name
      · rw [here, Function.update_self] at known
        cases known
      · rw [Function.update_of_ne here] at known
        exact named key table rows known
  | alterTableAddColumn name column newSql =>
      obtain ⟨table, rows, known, rfl⟩ := effect
      exact named.update (Catalog.withColumn table column newSql) (named _ table rows known) rows

theorem Statement.ChangesAll.named {statements : List (Statement Query)}
    (changes : Statement.ChangesAll builtins statements before after) (named : Named before) : Named after := by
  induction changes with
  | nil => exact named
  | cons first _ ih =>
      obtain ⟨table, rows, rows', count, known, _, rfl⟩ := first
      exact ih (named.update table (named _ table rows known) rows')

/-- Requests keep tables under their names. -/
theorem History.named {steps : List (Step Sub Query × Bool)}
    (history : History display builtins steps before after) (named : Named before) : Named after := by
  induction history with
  | nil => exact named
  | @returned step _ _ _ _ effect _ ih =>
      refine ih ?_
      cases request : step.request with
      | ddl statement =>
          rw [request] at effect
          obtain ⟨_, _, _, _, effect⟩ := effect
          exact effect.named named
      | dml statements =>
          rw [request] at effect
          exact Statement.ChangesAll.named effect named
  | failed _ ih => exact ih named

end

/-! ## Pages -/

namespace Database

variable {σ Sub Query : Type} [PageSink σ]

section

variable (display : SqlDisplay Sub) (builtins : Builtins)

/-- A request, and whether it returned. -/
def attempt (step : Step Sub Query) (db : Database σ) : Bool × Database σ :=
  match run display builtins step db with
  | .ok _ after => (true, after)
  | .error _ after => (false, after)

/-- Requests of a client that goes on after errors. -/
def attempts : List (Step Sub Query) → Database σ → List Bool × Database σ
  | [], db => ([], db)
  | step :: rest, db =>
      let (returned, between) := attempt display builtins step db
      let (answers, after) := attempts rest between
      (returned :: answers, after)

/-- The requests that change the schema return. -/
def SchemaReturns : List (Step Sub Query) → Database σ → Prop
  | [], _ => True
  | step :: rest, db =>
      ((∃ statement, step.request = .ddl statement) → (attempt display builtins step db).1 = true) ∧
        SchemaReturns rest (attempt display builtins step db).2

end

variable [MapSink σ] {db after : Database σ} {tables : Tables}

/-- The trees of the tables are on the pages, with no page in common, and hold their rows. -/
def Holds (tables : Tables) (db : Database σ) : Prop :=
  ∃ extent, BTree.Forest (view db.1) (rootOf db.2) extent ∧
    ∀ key, tables key = (db.2.tables.get? key).map fun table => (table, (extent (some key)).rows)

theorem Holds.get? (holds : Holds tables db) (key : Text) :
    db.2.tables.get? key = (tables key).map Prod.fst := by
  obtain ⟨extent, _, same⟩ := holds
  rw [same, Option.map_map]
  exact Option.map_id'.symm

/-- The rows of a table are those its tree holds. -/
theorem Holds.tree (holds : Holds tables db) {key : Text} {table : Table} {rows : Rows}
    (known : tables key = some (table, rows)) :
    db.2.tables.get? key = some table ∧ ∃ pages, BTree.Tree (view db.1) table.rootPage rows pages := by
  obtain ⟨extent, forest, same⟩ := holds
  rw [same] at known
  obtain ⟨_, found, given⟩ := Option.map_eq_some_iff.mp known
  obtain ⟨rfl, rfl⟩ := Prod.mk.inj given
  exact ⟨found, _, forest.tree (some key) _ (by rw [rootOf, found, Option.map_some])⟩

/-- The catalog's tree changes, and nothing else on the pages. -/
theorem Holds.onCatalog {catalog : Catalog} {store : Audited σ} {rows : Rows} {pages : List PageId}
    {extent : Option Text → BTree.Extent}
    (forest : BTree.Forest (view db.1) (rootOf db.2) extent)
    (tree : BTree.Tree (view store) catalogRoot rows pages)
    (replaces : Replaces (view db.1) (view store) (extent none).pages pages)
    (among : ∀ key table, catalog.tables.get? key = some table →
      (db.2.tables.get? key).map Table.rootPage = some table.rootPage)
    (same : ∀ key, tables key = (catalog.tables.get? key).map fun table => (table, (extent (some key)).rows)) :
    Holds tables (store, catalog) := by
  refine ⟨_, (forest.change (i := none) rfl replaces tree).part fun i root known => ?_, fun key => ?_⟩
  · cases i with
    | none => exact known
    | some key =>
        obtain ⟨table, held, rfl⟩ := Option.map_eq_some_iff.mp known
        exact among key table held
  · rw [Function.update_of_ne (by simp)]
    exact same key

section

variable {display : SqlDisplay Sub} {builtins : Builtins} {fuel : Nat}

/-- A new table on a free page, and its entry. -/
theorem Holds.createTable (holds : Holds tables db) {table : Table}
    (run : (do
        let root ← onStore (Exec.mapError .storage BTree.create)
        Catalog.addTable fuel { table with rootPage := root } :
      Exec (Database σ) SqlError Unit) db = .ok () after)
    (fit : after.1.allFit = true) :
    ∃ root, Holds (Function.update tables (Text.toAsciiLowercase table.name)
      (some ({ table with rootPage := root }, []))) after := by
  obtain ⟨extent, forest, same⟩ := holds
  obtain ⟨root, between, created, added⟩ := Exec.bind_eq_ok.mp run
  obtain ⟨store, ran, rfl⟩ := onStore_eq_ok.mp created
  have fitCreated := Catalog.tracks_addTable _ added fit
  have inUse : view db.1 catalogRoot ≠ .free := (forest.tree none catalogRoot rfl).root_live
  obtain ⟨tree, replaces⟩ := BTree.create_replaces inUse (Exec.mapError_eq_ok.mp ran) fitCreated
  let key := Text.toAsciiLowercase table.name
  have planted := forest.plant (some key) replaces tree
  have catalogTree := planted.tree none catalogRoot (by rw [Function.update_of_ne (by simp)]; rfl)
  rw [Function.update_of_ne (by simp)] at catalogTree
  obtain ⟨rowid, record, _, _, catalog, pages', tree', step⟩ := Catalog.addTable_ok catalogTree added fit
  have changed := planted.change (i := none) (by rw [Function.update_of_ne (by simp)]; rfl)
    (by rw [Function.update_of_ne (by simp)]; exact step) tree'
  rw [← rootOf_insert db.2 key { table with rootPage := root }
    (db.2.catalogIds.insert (Text.toAsciiLowercase table.name) rowid)] at changed
  obtain ⟨final, _⟩ := after
  obtain rfl := catalog
  refine ⟨root, _, changed, fun other => ?_⟩
  dsimp only
  by_cases here : other = key
  · subst here
    rw [Function.update_self, Function.update_of_ne (Option.some_ne_none _), Function.update_self,
      FiniteMap.get?_insert_self, Option.map_some]
  · rw [Function.update_of_ne here, Function.update_of_ne (Option.some_ne_none _),
      Function.update_of_ne (by simpa using here), FiniteMap.get?_insert_of_ne here, same]

/-- A statement that changes the schema. -/
theorem Holds.runDdl (holds : Holds tables db) {failure : Option StorageError} {plan : DdlPlan}
    (run : Database.runDdl fuel failure plan db = .ok () after) (fit : after.1.allFit = true) :
    ∃ tables', plan.Effect tables tables' ∧ Holds tables' after := by
  have known := holds.get?
  cases plan with
  | createTable table ifNotExists =>
      obtain ⟨catalog, between, read, rest⟩ := Exec.bind_eq_ok.mp run
      obtain ⟨rfl, rfl⟩ := own_eq_ok.mp read
      have there : (db.2.getTable table.name).isSome = (tables (Text.toAsciiLowercase table.name)).isSome := by
        rw [Catalog.getTable, known, Option.isSome_map]
      rw [there] at rest
      by_cases exists_ : (tables (Text.toAsciiLowercase table.name)).isSome = true
      · rw [if_pos exists_] at rest
        split at rest
        · obtain ⟨_, rfl⟩ := Exec.pure_eq_ok.mp rest
          exact ⟨tables, by rw [DdlPlan.Effect, if_pos exists_], holds⟩
        · simp at rest
      · rw [if_neg exists_] at rest
        obtain ⟨root, held⟩ := holds.createTable (autocommit_eq_ok.mp rest).2 fit
        exact ⟨_, by rw [DdlPlan.Effect, if_neg exists_]; exact ⟨root, rfl⟩, held⟩
  | createIndex index ifNotExists =>
      obtain ⟨catalog, between, read, rest⟩ := Exec.bind_eq_ok.mp run
      obtain ⟨rfl, rfl⟩ := own_eq_ok.mp read
      split at rest
      · split at rest
        · obtain ⟨_, rfl⟩ := Exec.pure_eq_ok.mp rest
          exact ⟨tables, rfl, holds⟩
        · simp at rest
      · obtain rfl := modifyOwn_eq_ok.mp (autocommit_eq_ok.mp rest).2
        exact ⟨tables, rfl, holds⟩
  | dropTable name ifExists =>
      obtain ⟨extent, forest, same⟩ := holds
      obtain ⟨dropped, between, ran, rest⟩ := Exec.bind_eq_ok.mp run
      have left : after = between := by
        split at rest
        · simp at rest
        · exact (Exec.pure_eq_ok.mp rest).2.symm
      subst left
      obtain ⟨was, effect⟩ := Catalog.dropTable_ok (forest.tree none catalogRoot rfl)
        (autocommit_eq_ok.mp ran).2 fit
      refine ⟨_, rfl, ?_⟩
      cases dropped with
      | false =>
          rw [if_neg Bool.false_ne_true] at effect
          subst effect
          have absent : tables (Text.toAsciiLowercase name) = none := by
            rw [same, Option.map_eq_none_iff]
            exact Option.isNone_iff_eq_none.mp (by rw [← Option.not_isSome, ← Catalog.getTable, ← was]; rfl)
          rw [← absent, Function.update_eq_self]
          exact ⟨extent, forest, same⟩
      | true =>
          rw [if_pos rfl] at effect
          obtain ⟨remaining, _, pages', tree', step⟩ := effect
          refine Holds.onCatalog forest tree' step (fun key table held => ?_) fun key => ?_
          · rw [remaining, FiniteMap.get?_erase] at held
            split at held
            · cases held
            · rw [held, Option.map_some]
          · by_cases here : key = Text.toAsciiLowercase name
            · subst here
              rw [remaining, FiniteMap.get?_erase_self, Function.update_self, Option.map_none]
            · rw [remaining, FiniteMap.get?_erase_of_ne here, Function.update_of_ne here, same]
  | alterTableAddColumn tableName column newSql =>
      obtain ⟨extent, forest, same⟩ := holds
      obtain ⟨table, rowid, record, found, _, _, widened, pages', tree', step⟩ :=
        Catalog.alterAddColumn_ok (forest.tree none catalogRoot rfl) (autocommit_eq_ok.mp run).2 fit
      have found : db.2.tables.get? (Text.toAsciiLowercase tableName) = some table := found
      obtain ⟨store, catalog⟩ := after
      obtain rfl : catalog = _ := widened
      refine ⟨_, ⟨table, _, by rw [same, found, Option.map_some], rfl⟩, ?_⟩
      refine Holds.onCatalog forest tree' step (fun key held known => ?_) fun key => ?_
      · by_cases here : key = Text.toAsciiLowercase tableName
        · subst here
          rw [FiniteMap.get?_insert_self] at known
          obtain rfl := Option.some.inj known
          rw [found, Option.map_some]
          rfl
        · rw [FiniteMap.get?_insert_of_ne here] at known
          rw [known, Option.map_some]
      · by_cases here : key = Text.toAsciiLowercase tableName
        · subst here
          rw [FiniteMap.get?_insert_self, Function.update_self, Option.map_some]
        · rw [FiniteMap.get?_insert_of_ne here, Function.update_of_ne here, same]

/-- A statement that changes rows. -/
theorem Holds.runDml (holds : Holds tables db) {statement : Statement Query}
    (run : Database.runDml builtins statement db = .ok () after) (fit : after.1.allFit = true) :
    ∃ tables', statement.Changes builtins tables tables' ∧ Holds tables' after ∧ after.2 = db.2 := by
  obtain ⟨extent, forest, same⟩ := holds
  obtain ⟨catalog, between, read, rest⟩ := Exec.bind_eq_ok.mp run
  obtain ⟨rfl, rfl⟩ := own_eq_ok.mp read
  obtain ⟨table, between, lookedUp, rest⟩ := Exec.bind_eq_ok.mp rest
  obtain ⟨found, rfl⟩ := Exec.lift_eq_ok.mp lookedUp
  obtain ⟨count, between, onTable, rest⟩ := Exec.bind_eq_ok.mp rest
  obtain ⟨_, rfl⟩ := Exec.pure_eq_ok.mp rest
  obtain ⟨store, ran, rfl⟩ := onStore_eq_ok.mp onTable
  have known : db.2.tables.get? (Text.toAsciiLowercase statement.plan.table) = some table :=
    Outcome.orErr_eq_ok.mp found
  have rooted : rootOf db.2 (some (Text.toAsciiLowercase statement.plan.table)) = some table.rootPage := by
    rw [rootOf, known, Option.map_some]
  obtain ⟨rows', pages', tree', step, effect⟩ := Statement.effect (forest.tree _ _ rooted) ran fit
  refine ⟨_, ⟨table, _, rows', count, by rw [same, known, Option.map_some], effect, rfl⟩,
    ⟨_, forest.change rooted step tree', fun key => ?_⟩, rfl⟩
  by_cases here : key = Text.toAsciiLowercase statement.plan.table
  · subst here
    rw [Function.update_self, Function.update_self, known, Option.map_some]
  · rw [Function.update_of_ne here, Function.update_of_ne (by simpa using here), same]

theorem Holds.runDmls (holds : Holds tables db) {statements : List (Statement Query)}
    (run : Database.runDmls builtins statements db = .ok () after) (fit : after.1.allFit = true) :
    ∃ tables', Statement.ChangesAll builtins statements tables tables' ∧ Holds tables' after := by
  induction statements generalizing db tables with
  | nil =>
      obtain ⟨_, rfl⟩ := Exec.pure_eq_ok.mp run
      exact ⟨tables, .nil tables, holds⟩
  | cons statement rest ih =>
      obtain ⟨_, between, first, later⟩ := Exec.bind_eq_ok.mp run
      obtain ⟨tables₁, changes, held, _⟩ := holds.runDml first (tracks_runDmls rest later fit)
      obtain ⟨tables₂, changed, held⟩ := ih held later
      exact ⟨tables₂, .cons changes changed, held⟩

/-- **A request** that returns has its effect on the tables. -/
theorem Holds.run (holds : Holds tables db) {step : Step Sub Query}
    (run : Database.run display builtins step db = .ok () after) (fit : after.1.allFit = true) :
    ∃ tables', step.request.Effect display builtins tables tables' ∧ Holds tables' after := by
  obtain ⟨request, fuel, failure⟩ := step
  cases request with
  | ddl statement =>
      obtain ⟨catalog, between, read, rest⟩ := Exec.bind_eq_ok.mp run
      obtain ⟨rfl, rfl⟩ := own_eq_ok.mp read
      obtain ⟨plan, between, lifted, rest⟩ := Exec.bind_eq_ok.mp rest
      obtain ⟨planned, rfl⟩ := Exec.lift_eq_ok.mp lifted
      obtain ⟨tables', effect, held⟩ := holds.runDdl rest fit
      exact ⟨tables', ⟨db.2, plan, holds.get?, planned, effect⟩, held⟩
  | dml statements => exact holds.runDmls (autocommit_eq_ok.mp run).2 fit

end

/-! ## Requests that fail -/

/-- Code that leaves the catalog in memory as it is, whether it returns or not. -/
def LeavesCatalog {α : Type} (code : Exec (Database σ) SqlError α) : Prop :=
  ∀ db after, (∀ value, code db = .ok value after → after.2 = db.2) ∧
    ∀ fault, code db = .error fault after → after.2 = db.2

namespace LeavesCatalog

variable {α β : Type}

omit [PageSink σ] [MapSink σ] in
theorem lift (outcome : Outcome SqlError α) : LeavesCatalog (Exec.lift outcome : Exec (Database σ) SqlError α) :=
  fun _ _ => ⟨fun _ run => congrArg Prod.snd (Exec.lift_eq_ok.mp run).2.symm,
    fun _ run => congrArg Prod.snd (Exec.lift_eq_error.mp run).2.symm⟩

omit [PageSink σ] [MapSink σ] in
theorem own : LeavesCatalog (own : Exec (Database σ) SqlError Catalog) :=
  fun _ _ => ⟨fun _ run => congrArg Prod.snd (own_eq_ok.mp run).2.symm, fun _ run => by cases run⟩

omit [PageSink σ] [MapSink σ] in
theorem onStore (code : Exec (Audited σ) SqlError α) :
    LeavesCatalog (onStore code : Exec (Database σ) SqlError α) := by
  intro db after
  rw [Exec.onStore, Exec.onPart]
  cases code db.1 with
  | ok value store => exact ⟨fun _ run => (by cases run; rfl), fun _ run => (by cases run)⟩
  | error fault store => exact ⟨fun _ run => (by cases run), fun _ run => (by cases run; rfl)⟩

omit [PageSink σ] [MapSink σ] in
theorem bind {first : Exec (Database σ) SqlError α} {next : α → Exec (Database σ) SqlError β}
    (earlier : LeavesCatalog first) (later : ∀ value, LeavesCatalog (next value)) :
    LeavesCatalog (first >>= next) := by
  intro db after
  constructor
  · intro value run
    obtain ⟨middle, between, ran, rest⟩ := Exec.bind_eq_ok.mp run
    exact (((later middle) between after).1 value rest).trans ((earlier db between).1 middle ran)
  · intro fault run
    rcases Exec.bind_eq_error.mp run with ran | ⟨middle, between, ran, rest⟩
    · exact (earlier db after).2 fault ran
    · exact (((later middle) between after).2 fault rest).trans ((earlier db between).1 middle ran)

end LeavesCatalog

section

variable {display : SqlDisplay Sub} {builtins : Builtins}

omit [MapSink σ] in
theorem leavesCatalog_runDmls (statements : List (Statement Query)) :
    LeavesCatalog (Database.runDmls builtins statements : Exec (Database σ) SqlError Unit) := by
  induction statements with
  | nil => exact .lift (.ok ())
  | cons statement rest ih =>
      refine .bind (.bind .own fun catalog => .bind (.lift _) fun table => ?_) fun _ => ih
      exact .bind (.onStore _) fun _ => .lift (.ok ())

omit [MapSink σ] in
/-- Statements that change rows and fail change nothing. -/
theorem eq_of_dml_error {step : Step Sub Query} {statements : List (Statement Query)}
    (rows : step.request = .dml statements) {fault : Fault SqlError}
    (failed : Database.run display builtins step db = .error fault after) : after = db := by
  rw [Database.run, rows] at failed
  dsimp only at failed
  rw [autocommit] at failed
  have kept : LeavesCatalog (σ := σ) (Database.runDmls builtins statements) := leavesCatalog_runDmls statements
  cases ran : Database.runDmls builtins statements db with
  | ok value reached =>
      rw [ran] at failed
      have same := (kept db reached).1 value ran
      cases committed : step.failure with
      | none => simp [committed] at failed
      | some e =>
          rw [committed] at failed
          cases failed
          exact Prod.ext rfl same
  | error fault reached =>
      rw [ran] at failed
      cases failed
      exact Prod.ext rfl ((kept db reached).2 fault ran)

/-! ## Runs -/

omit [MapSink σ] in
/-- A request returns, or it changes nothing. -/
theorem attempt_cases {step : Step Sub Query}
    (schema : (∃ statement, step.request = .ddl statement) → (attempt display builtins step db).1 = true) :
    (∃ reached, Database.run display builtins step db = .ok () reached ∧
      attempt display builtins step db = (true, reached)) ∨ attempt display builtins step db = (false, db) := by
  cases ran : Database.run display builtins step db with
  | ok value reached => exact .inl ⟨reached, rfl, by rw [attempt, ran]⟩
  | error fault reached =>
      rw [attempt, ran] at schema
      cases request : step.request with
      | ddl statement => cases schema ⟨statement, request⟩
      | dml statements => exact .inr (by rw [attempt, ran, eq_of_dml_error request ran])

omit [MapSink σ] in
theorem attempts_cons {step : Step Sub Query} {rest : List (Step Sub Query)} {answers : List Bool}
    (run : attempts display builtins (step :: rest) db = (answers, after)) :
    ∃ later, answers = (attempt display builtins step db).1 :: later ∧
      attempts display builtins rest (attempt display builtins step db).2 = (later, after) := by
  obtain ⟨rfl, rfl⟩ := Prod.mk.inj run
  exact ⟨_, rfl, rfl⟩

omit [MapSink σ] in
theorem attempts_fit {steps : List (Step Sub Query)} {answers : List Bool}
    (schema : SchemaReturns display builtins steps db)
    (run : attempts display builtins steps db = (answers, after)) (fit : after.1.allFit = true) :
    db.1.allFit = true := by
  induction steps generalizing db answers with
  | nil =>
      obtain ⟨_, rfl⟩ := Prod.mk.inj run
      exact fit
  | cons step rest ih =>
      obtain ⟨later, _, run⟩ := attempts_cons run
      have between := ih schema.2 run
      rcases attempt_cases schema.1 with ⟨reached, ran, same⟩ | same
      · rw [same] at between
        exact tracks_run step ran between
      · rwa [same] at between

/-- **A run** has the effects of the requests that returned. -/
theorem Holds.attempts (holds : Holds tables db) {steps : List (Step Sub Query)} {answers : List Bool}
    (schema : SchemaReturns display builtins steps db)
    (run : Database.attempts display builtins steps db = (answers, after)) (fit : after.1.allFit = true) :
    ∃ tables', History display builtins (steps.zip answers) tables tables' ∧ Holds tables' after := by
  induction steps generalizing db tables answers with
  | nil =>
      obtain ⟨_, rfl⟩ := Prod.mk.inj run
      exact ⟨tables, .nil tables, holds⟩
  | cons step rest ih =>
      obtain ⟨later, answered, remaining⟩ := attempts_cons run
      have between := attempts_fit schema.2 remaining fit
      obtain ⟨here, schema⟩ := schema
      subst answered
      rcases attempt_cases here with ⟨reached, ran, same⟩ | same
      · rw [same] at between schema remaining ⊢
        obtain ⟨tables₁, effect, held⟩ := holds.run ran between
        obtain ⟨tables₂, history, held⟩ := ih held schema remaining
        exact ⟨tables₂, .returned effect history, held⟩
      · rw [same] at schema remaining ⊢
        obtain ⟨tables₁, history, held⟩ := ih holds schema remaining
        exact ⟨tables₁, .failed history, held⟩

/-- A database without tables. -/
theorem holds_new {rows : Rows} {pages : List PageId}
    (tree : BTree.Tree (view db.1) catalogRoot rows pages) (none : db.2.tables = .empty) :
    Holds (fun _ => Option.none) db := by
  refine ⟨fun _ => ⟨rows, pages⟩, ⟨fun i root known => ?_, fun i j different first second => ?_⟩, fun key => ?_⟩
  · cases i with
    | none =>
        obtain rfl := Option.some.inj known
        exact tree
    | some key => simp [rootOf, none] at known
  · cases i with
    | none =>
        cases j with
        | none => exact absurd rfl different
        | some key => simp [rootOf, none] at second
    | some key => simp [rootOf, none] at first
  · rw [none, FiniteMap.get?_empty, Option.map_none]

end

end Database

/-! ## A row for a table that is created later -/

/-- A row is stored in a table that is not there, and the table is created. -/
def insertThenCreate : List Bool × Database MemStore :=
  Database.attempts (displayOf "CREATE TABLE t (a INTEGER)" "") .bare [insertOne, createT] newDatabase

theorem insertThenCreate_answers :
    insertThenCreate.1 = [false, true] ∧ insertThenCreate.2.1.allFit = true := by
  decide +kernel

end Squrust.Sql
