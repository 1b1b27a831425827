import Squrust.Sql.Database
import Squrust.Sql.Executors

/-!
# Properties of the rows of every table

A property of a table and its rows that every stored row and every deletion keeps
(`RowInvariant`) is kept by each statement that changes rows (`Statement.keeps`), and by
requests on the database when it holds of new tables and of tables that are given a
further column (`Database.runAll_keeps`).
-/

set_option autoImplicit false

namespace Squrust.Sql

open Squrust.Foundation

open Squrust.Foundation.Exec (own modifyOwn onStore own_eq_ok modifyOwn_eq_ok onStore_eq_ok)

open Squrust.Core

variable {Query : Type} {builtins : Builtins} {table : Table} {params : List Value}

/-! ## How many values a row has -/

theorem length_setValue {values after : List Value} {i : Nat} {v : Value}
    (set : setValue values i v = .ok after) : after.length = values.length := by
  unfold setValue at set
  split at set
  · obtain rfl := Except.ok.inj set
    exact List.length_set
  · cases set

theorem length_fillIn {pairs : List (Nat × Expr Query)} {values after : List Value}
    (filled : fillIn builtins table params pairs values = .ok after) :
    after.length = values.length := by
  induction pairs generalizing values with
  | nil =>
      obtain rfl := Except.ok.inj filled
      rfl
  | cons pair pairs ih =>
      obtain ⟨slot, expr⟩ := pair
      obtain ⟨v, _, rest⟩ := Outcome.bind_eq_ok.mp filled
      obtain ⟨coerced, _, rest⟩ := Outcome.bind_eq_ok.mp rest
      obtain ⟨between, set, rest⟩ := Outcome.bind_eq_ok.mp rest
      rw [ih rest, length_setValue set]

/-- A new row has a value for every column. -/
theorem length_newValues {plan : InsertPlan Query} {clock : Nat → Int} {rowExprs : List (Expr Query)}
    {values : List Value} (made : newValues builtins table params plan clock rowExprs = .ok values) :
    values.length = table.columns.length := by
  unfold newValues at made
  split at made
  · cases made
  · rw [length_fillIn made, List.length_mapIdx]

theorem length_assign {rowid newRowid final : Int64} {assignments : List (Nat × Expr Query)}
    {values after : List Value}
    (assigned : assign builtins table params rowid assignments values newRowid = .ok (after, final)) :
    after.length = values.length := by
  induction assignments generalizing values newRowid with
  | nil =>
      obtain ⟨rfl, rfl⟩ := Prod.mk.inj (Except.ok.inj assigned)
      rfl
  | cons assignment assignments ih =>
      obtain ⟨colIdx, expr⟩ := assignment
      obtain ⟨v, _, rest⟩ := Outcome.bind_eq_ok.mp assigned
      obtain ⟨coerced, _, rest⟩ := Outcome.bind_eq_ok.mp rest
      have later : ∀ moved, (do
          let values ← setValue values colIdx coerced
          assign builtins table params rowid assignments values moved) = .ok (after, final) →
          after.length = values.length := by
        intro moved rest
        obtain ⟨between, set, rest⟩ := Outcome.bind_eq_ok.mp rest
        rw [ih rest, length_setValue set]
      simp only at rest
      split at rest
      · obtain ⟨moved, _, rest⟩ := Outcome.bind_eq_ok.mp rest
        exact later moved rest
      · exact later newRowid rest

theorem length_withAlias (rowid : Int64) (values : List Value) :
    (withAlias table rowid values).length = values.length := by
  unfold withAlias
  cases table.rowidAlias with
  | none => rfl
  | some a => exact List.length_set

/-- What a condition holds for are rows of the table. -/
theorem mem_matchingRows {predicate : Option (Expr Query)} {entries : Rows}
    {matching : List (Int64 × List Value)}
    (scanned : matchingRows builtins table params predicate entries = .ok matching) :
    ∀ found ∈ matching, ∃ entry ∈ entries, ∃ row, Row.decode entry.1 entry.2.val = .ok row ∧
      found = (entry.1, withAlias table entry.1 row.values) := by
  have general : ∀ (entries : Rows) (out matching : List (Int64 × List Value)),
      (forIn entries out fun entry out =>
        visitMatching builtins table params predicate entry.1 entry.2.val out) = .ok matching →
      ∀ found ∈ matching, found ∈ out ∨ ∃ entry ∈ entries, ∃ row,
        Row.decode entry.1 entry.2.val = .ok row ∧
          found = (entry.1, withAlias table entry.1 row.values) := by
    intro entries
    induction entries with
    | nil =>
        intro out matching done found member
        obtain rfl := Except.ok.inj done
        exact .inl member
    | cons entry entries ih =>
        intro out matching scanned found member
        rw [List.forIn_cons] at scanned
        obtain ⟨visited, visit, rest⟩ := Outcome.bind_eq_ok.mp scanned
        obtain ⟨row, decoded, visit⟩ := Outcome.bind_eq_ok.mp visit
        obtain ⟨keep, rfl⟩ : ∃ keep : Bool, visited =
            .yield (if keep then out ++ [(entry.1, withAlias table entry.1 row.values)] else out) := by
          cases predicate with
          | none => exact ⟨true, (Outcome.pure_eq_ok.mp visit).symm⟩
          | some p =>
              obtain ⟨v, _, visit⟩ := Outcome.bind_eq_ok.mp visit
              exact ⟨v.isTruthy, (Outcome.pure_eq_ok.mp visit).symm⟩
        rcases ih _ _ rest found member with before | ⟨later, inLater, row', decoded', same⟩
        · split at before
          · rcases List.mem_append.mp before with before | here
            · exact .inl before
            · rw [List.mem_singleton] at here
              exact .inr ⟨entry, List.mem_cons_self, row, decoded, here⟩
          · exact .inl before
        · exact .inr ⟨later, List.mem_cons_of_mem _ inLater, row', decoded', same⟩
  intro found member
  rcases general entries [] matching scanned found member with none | found
  · cases none
  · exact found

/-- What a scan makes of a record: the defaults of the columns it has no values for, and the row id
in the alias column. -/
theorem TableScan.row_of_decode (table : Table) {key : Int64} {bytes : Bytes} {row : Row}
    (decoded : Row.decode key bytes = .ok row) :
    TableScan.row table.columns.length table.rowidAlias (table.columns.map scanDefault) key bytes =
      .ok ⟨row.rowId, withAlias table key
        (row.values ++ (table.columns.map scanDefault).drop row.values.length)⟩ := by
  simp only [TableScan.row, decoded, Outcome.ok_bind, List.length_map, withAlias]
  by_cases short : row.values.length < table.columns.length
  · rw [if_pos short, if_pos short.le]
    cases table.rowidAlias with
    | none => rfl
    | some a => rfl
  · have all : (table.columns.map scanDefault).drop row.values.length = [] := by
      rw [List.drop_eq_nil_iff, List.length_map]
      exact not_lt.mp short
    rw [if_neg short, all, List.append_nil]
    cases table.rowidAlias with
    | none => rfl
    | some a => rfl

/-! ## Statements -/

/-- A property that rows of a table keep when one is stored whose values passed the checks, and
when one is deleted. Rows have no more values than the table has columns. -/
structure RowInvariant (P : Table → Rows → Prop) : Prop where
  narrow : ∀ {table : Table} {rows : Rows}, P table rows → ∀ entry ∈ rows, ∀ row,
    Row.decode entry.1 entry.2.val = .ok row → row.values.length ≤ table.columns.length
  put : ∀ {table : Table} {rows : Rows} {rowid : Int64} {values : List Value} {record : Record},
    P table rows → checkNotNull table values = .ok () → values.length ≤ table.columns.length →
      asRecord ⟨rowid, withAliasNulled table.rowidAlias values⟩ = .ok record →
      P table (Entries.put rowid record rows)
  drop : ∀ {table : Table} {rows : Rows} (rowid : Int64), P table rows →
    P table (Entries.drop rowid rows)

section

variable {P : Table → Rows → Prop} {σ : Type} [PageSink σ] [MapSink σ] {fuel : Nat}
  {store after : Audited σ} {rows : Rows} {pages : List PageId}

/-- The tree of the table has other rows with the property, on pages it had or that were free. -/
def Leads (P : Table → Rows → Prop) (table : Table) (pages : List PageId) (store after : Audited σ) :
    Prop :=
  ∃ rows' pages', BTree.Tree (view after) table.rootPage rows' pages' ∧
    Replaces (view store) (view after) pages pages' ∧ P table rows'

theorem Leads.refl (tree : BTree.Tree (view store) table.rootPage rows pages) (holds : P table rows) :
    Leads P table pages store store :=
  ⟨rows, pages, tree, .refl tree.live, holds⟩

/-- One change, and what follows. -/
theorem Leads.andThen {between : Audited σ} (first : Leads P table pages store between)
    (later : ∀ rows' pages', BTree.Tree (view between) table.rootPage rows' pages' → P table rows' →
      Leads P table pages' between after) : Leads P table pages store after := by
  obtain ⟨rows₁, pages₁, tree₁, step₁, holds₁⟩ := first
  obtain ⟨rows₂, pages₂, tree₂, step₂, holds₂⟩ := later rows₁ pages₁ tree₁ holds₁
  exact ⟨rows₂, pages₂, tree₂, step₁.trans step₂, holds₂⟩

theorem Leads.of_view {other : Audited σ} (same : view other = view store)
    (leads : Leads P table pages other after) : Leads P table pages store after := by
  unfold Leads at leads ⊢
  rwa [same] at leads

/-- Rows that are deleted. -/
theorem Leads.deleteRows
    (drop : ∀ {rows : Rows} (rowid : Int64), P table rows → P table (Entries.drop rowid rows))
    {matching : List (Int64 × List Value)} {count answer : Nat}
    (tree : BTree.Tree (view store) table.rootPage rows pages)
    (holds : P table rows)
    (run : Sql.deleteRows fuel table matching count store = .ok answer after)
    (fit : after.allFit = true) : Leads P table pages store after := by
  induction matching generalizing count store rows pages with
  | nil =>
      obtain ⟨_, rfl⟩ := Exec.pure_eq_ok.mp run
      exact .refl tree holds
  | cons found matching ih =>
      obtain ⟨rowid, old⟩ := found
      obtain ⟨deleted, between, first, later⟩ := Exec.bind_eq_ok.mp run
      have fitBetween : between.allFit = true := by
        cases deleted with
        | true => exact tracked_deleteRows _ _ later fit
        | false => exact tracked_deleteRows _ _ later fit
      obtain ⟨_, pages', tree', step⟩ := deleteRow_ok tree first fitBetween
      have changed : Leads P table pages store between := ⟨_, pages', tree', step, drop rowid holds⟩
      refine changed.andThen fun rows' pages' tree' holds' => ?_
      cases deleted with
      | true => exact ih tree' holds' later
      | false => exact ih tree' holds' later

namespace RowInvariant

theorem insertRow (inv : RowInvariant P) {plan : InsertPlan Query} {clock : Nat → Int}
    {rowExprs : List (Expr Query)} {rowid : Int64}
    (tree : BTree.Tree (view store) table.rootPage rows pages) (holds : P table rows)
    (run : Sql.insertRow builtins fuel table params plan clock rowExprs store = .ok rowid after)
    (fit : after.allFit = true) : Leads P table pages store after := by
  obtain ⟨values, conflict, record, stores, _, pages', tree', step⟩ := insertRow_ok tree run fit
  refine ⟨_, pages', tree', step, inv.put ?_ stores.notNull ?_ stores.encoded⟩
  · cases conflict with
    | none => exact holds
    | some place => exact inv.drop _ holds
  · rw [length_withAlias, length_newValues stores.filled]

theorem insertRows (inv : RowInvariant P) {plan : InsertPlan Query} {clock : Clock} {k : Nat}
    {tuples : List (List (Expr Query))} {result answer : InsertResult}
    (tree : BTree.Tree (view store) table.rootPage rows pages) (holds : P table rows)
    (run : Sql.insertRows builtins fuel table params plan clock k tuples result store =
      .ok answer after) (fit : after.allFit = true) : Leads P table pages store after := by
  induction tuples generalizing k result store rows pages with
  | nil =>
      obtain ⟨_, rfl⟩ := Exec.pure_eq_ok.mp run
      exact .refl tree holds
  | cons rowExprs tuples ih =>
      obtain ⟨rowid, between, first, later⟩ := Exec.bind_eq_ok.mp run
      refine (inv.insertRow tree holds first (tracked_insertRows _ _ _ _ _ later fit)).andThen ?_
      exact fun rows' pages' tree' holds' => ih tree' holds' later

theorem updateRows (inv : RowInvariant P) {plan : UpdatePlan Query}
    {matching : List (Int64 × List Value)} {count answer : Nat}
    (narrow : ∀ found ∈ matching, found.2.length ≤ table.columns.length)
    (tree : BTree.Tree (view store) table.rootPage rows pages) (holds : P table rows)
    (run : Sql.updateRows builtins fuel table params plan matching count store = .ok answer after)
    (fit : after.allFit = true) : Leads P table pages store after := by
  induction matching generalizing count store rows pages with
  | nil =>
      obtain ⟨_, rfl⟩ := Exec.pure_eq_ok.mp run
      exact .refl tree holds
  | cons found matching ih =>
      obtain ⟨rowid, old⟩ := found
      obtain ⟨_, between, first, later⟩ := Exec.bind_eq_ok.mp run
      obtain ⟨values, newRowid, record, changes, pages', tree', step⟩ :=
        updateRow_ok tree first (tracked_updateRows _ _ _ later fit)
      have short : values.length ≤ table.columns.length := by
        rw [length_assign changes.assigned]
        exact narrow _ List.mem_cons_self
      have changed : Leads P table pages store between := ⟨_, pages', tree', step,
        inv.put (inv.drop rowid holds) changes.notNull short changes.encoded⟩
      exact changed.andThen fun rows' pages' tree' holds' =>
        ih (fun other member => narrow other (List.mem_cons_of_mem _ member)) tree' holds' later

/-- **A statement** that changes rows keeps the property. -/
theorem statement (inv : RowInvariant P) {statement : Statement Query} {count : Nat}
    (tree : BTree.Tree (view store) table.rootPage rows pages) (holds : P table rows)
    (run : statement.run builtins table store = .ok count after) (fit : after.allFit = true) :
    Leads P table pages store after := by
  obtain ⟨plan, params, clock, fuel⟩ := statement
  cases plan with
  | insert plan =>
      obtain ⟨result, between, inserted, rest⟩ := Exec.bind_eq_ok.mp run
      obtain ⟨_, rfl⟩ := Exec.pure_eq_ok.mp rest
      exact inv.insertRows tree holds inserted fit
  | update plan =>
      obtain ⟨matching, between, scanned, rest⟩ := Exec.bind_eq_ok.mp run
      obtain ⟨found, same⟩ := (scanned_observes tree plan.predicate).of_ok scanned
      have sameView := (sight_eq same).1
      rw [← sameView] at tree
      refine .of_view sameView (inv.updateRows (fun pair member => ?_) tree holds rest fit)
      obtain ⟨entry, inside, row, decoded, rfl⟩ := mem_matchingRows found pair member
      rw [length_withAlias]
      exact inv.narrow holds entry inside row decoded
  | delete plan =>
      obtain ⟨matching, between, scanned, rest⟩ := Exec.bind_eq_ok.mp run
      obtain ⟨_, same⟩ := (scanned_observes tree plan.predicate).of_ok scanned
      have sameView := (sight_eq same).1
      rw [← sameView] at tree
      exact .of_view sameView (.deleteRows inv.drop tree holds rest fit)

end RowInvariant

end

/-! ## Requests -/

namespace Database

section

variable {P : Table → Rows → Prop} {σ Sub : Type} [PageSink σ] [MapSink σ] {fuel : Nat}
  {db after : Database σ}

/-- The root pages: of the catalog, and of each table by its name. -/
def rootOf (catalog : Catalog) : Option Text → Option PageId
  | none => some catalogRoot
  | some key => (catalog.tables.get? key).map Table.rootPage

/-- The trees are on the pages, with no page in common, and the rows of each table have the
property. -/
def Keeps (P : Table → Rows → Prop) (db : Database σ) : Prop :=
  ∃ extent, BTree.Forest (view db.1) (rootOf db.2) extent ∧
    ∀ key table, db.2.tables.get? key = some table → P table (extent (some key)).rows

theorem rootOf_insert (catalog : Catalog) (key : Text) (table : Table) (ids : FiniteMap Text Int64) :
    rootOf { catalog with catalogIds := ids, tables := catalog.tables.insert key table } =
      Function.update (rootOf catalog) (some key) (some table.rootPage) := by
  funext i
  cases i with
  | none => rfl
  | some other =>
      by_cases here : other = key
      · subst here
        rw [Function.update_self]
        simp [rootOf]
      · rw [Function.update_of_ne (by simpa using here)]
        simp [rootOf, FiniteMap.get?_insert_of_ne here]

/-- The catalog's tree changes, and nothing else on the pages. -/
theorem Keeps.onCatalog {catalog : Catalog} {store : Audited σ} {rows : Rows} {pages : List PageId}
    {extent : Option Text → BTree.Extent}
    (forest : BTree.Forest (view db.1) (rootOf db.2) extent)
    (tree : BTree.Tree (view store) catalogRoot rows pages)
    (replaces : Replaces (view db.1) (view store) (extent none).pages pages)
    (among : ∀ i root, rootOf catalog i = some root → rootOf db.2 i = some root)
    (holds : ∀ key table, catalog.tables.get? key = some table → P table (extent (some key)).rows) :
    Keeps P (store, catalog) := by
  refine ⟨_, (forest.change (i := none) rfl replaces tree).part among, fun key table known => ?_⟩
  rw [Function.update_of_ne (by simp)]
  exact holds key table known

/-- What a new column has to do with the rows of its table. -/
def Admits (Admitted : Table → Column → Rows → Prop) (db : Database σ) (plan : DdlPlan) : Prop :=
  match plan with
  | .alterTableAddColumn tableName column _ =>
      ∀ table, db.2.getTable tableName = some table → ∀ rows pages,
        BTree.Tree (view db.1) table.rootPage rows pages → Admitted table column rows
  | _ => True

variable {Admitted : Table → Column → Rows → Prop}

/-- A new table on a free page, and its row. -/
theorem Keeps.createTable (keeps : Keeps P db) (new : ∀ table, P table []) {table : Table}
    (run : (do
        let root ← onStore (Exec.mapError .storage BTree.create)
        Catalog.addTable fuel { table with rootPage := root } :
      Exec (Database σ) SqlError Unit) db = .ok () after)
    (fit : after.1.allFit = true) : Keeps P after := by
  obtain ⟨extent, forest, holds⟩ := keeps
  obtain ⟨root, between, created, added⟩ := Exec.bind_eq_ok.mp run
  obtain ⟨store, ran, rfl⟩ := onStore_eq_ok.mp created
  have fitCreated := Catalog.tracks_addTable _ added fit
  have catalogTree := forest.tree none catalogRoot rfl
  have inUse : view db.1 catalogRoot ≠ .free := catalogTree.root_live
  obtain ⟨tree, replaces⟩ := BTree.create_replaces inUse (Exec.mapError_eq_ok.mp ran) fitCreated
  let key := Text.toAsciiLowercase table.name
  have planted := forest.plant (some key) replaces tree
  have catalogTree' := planted.tree none catalogRoot (by rw [Function.update_of_ne (by simp)]; rfl)
  rw [Function.update_of_ne (by simp)] at catalogTree'
  obtain ⟨rowid, record, _, _, same, pages', tree', step⟩ := Catalog.addTable_ok catalogTree' added fit
  have changed := planted.change (i := none) (by rw [Function.update_of_ne (by simp)]; rfl)
    (by rw [Function.update_of_ne (by simp)]; exact step) tree'
  rw [← rootOf_insert db.2 key { table with rootPage := root }
    (db.2.catalogIds.insert (Text.toAsciiLowercase table.name) rowid)] at changed
  obtain ⟨final, catalog⟩ := after
  obtain rfl : catalog = _ := same
  refine ⟨_, changed, fun other held known => ?_⟩
  rw [Function.update_of_ne (by simp)]
  by_cases here : other = key
  · subst here
    rw [Function.update_self]
    exact new held
  · rw [Function.update_of_ne (by simpa using here)]
    rw [FiniteMap.get?_insert_of_ne here] at known
    exact holds other held known

/-- A statement that changes the schema. -/
theorem Keeps.runDdl (keeps : Keeps P db) (new : ∀ table, P table [])
    (alter : ∀ table column sql rows, P table rows → Admitted table column rows →
      P (Catalog.withColumn table column sql) rows)
    {failure : Option StorageError} {plan : DdlPlan} (admits : Admits Admitted db plan)
    (run : Database.runDdl fuel failure plan db = .ok () after) (fit : after.1.allFit = true) :
    Keeps P after := by
  cases plan with
  | createTable table ifNotExists =>
      obtain ⟨catalog, between, read, rest⟩ := Exec.bind_eq_ok.mp run
      obtain ⟨rfl, rfl⟩ := own_eq_ok.mp read
      split at rest
      · split at rest
        · obtain ⟨_, rfl⟩ := Exec.pure_eq_ok.mp rest
          exact keeps
        · simp at rest
      · exact keeps.createTable new (autocommit_eq_ok.mp rest).2 fit
  | createIndex index ifNotExists =>
      obtain ⟨catalog, between, read, rest⟩ := Exec.bind_eq_ok.mp run
      obtain ⟨rfl, rfl⟩ := own_eq_ok.mp read
      split at rest
      · split at rest
        · obtain ⟨_, rfl⟩ := Exec.pure_eq_ok.mp rest
          exact keeps
        · simp at rest
      · obtain rfl := modifyOwn_eq_ok.mp (autocommit_eq_ok.mp rest).2
        exact keeps
  | dropTable name ifExists =>
      obtain ⟨extent, forest, holds⟩ := keeps
      obtain ⟨dropped, between, ran, rest⟩ := Exec.bind_eq_ok.mp run
      have left : after = between := by
        split at rest
        · simp at rest
        · exact (Exec.pure_eq_ok.mp rest).2.symm
      subst left
      obtain ⟨_, effect⟩ := Catalog.dropTable_ok (forest.tree none catalogRoot rfl)
        (autocommit_eq_ok.mp ran).2 fit
      cases dropped with
      | false =>
          rw [if_neg Bool.false_ne_true] at effect
          subst effect
          exact ⟨extent, forest, holds⟩
      | true =>
          rw [if_pos rfl] at effect
          obtain ⟨tables, _, pages', tree', step⟩ := effect
          have remains : ∀ key table, after.2.tables.get? key = some table →
              db.2.tables.get? key = some table := by
            intro key table known
            rw [tables, FiniteMap.get?_erase] at known
            split at known
            · cases known
            · exact known
          refine Keeps.onCatalog forest tree' step (fun i root known => ?_)
            fun key table known => holds key table (remains key table known)
          cases i with
          | none => exact known
          | some key =>
              obtain ⟨table, held, rfl⟩ := Option.map_eq_some_iff.mp known
              exact Option.map_eq_some_iff.mpr ⟨table, remains key table held, rfl⟩
  | alterTableAddColumn tableName column newSql =>
      obtain ⟨extent, forest, holds⟩ := keeps
      obtain ⟨table, rowid, record, found, _, _, same, pages', tree', step⟩ :=
        Catalog.alterAddColumn_ok (forest.tree none catalogRoot rfl) (autocommit_eq_ok.mp run).2 fit
      obtain ⟨store, catalog⟩ := after
      obtain rfl : catalog = _ := same
      have before := holds _ table found
      have tree := forest.tree (some (Text.toAsciiLowercase tableName)) table.rootPage
        (by simp only [rootOf]; rw [show db.2.tables.get? _ = some table from found]; rfl)
      have admitted := admits table found _ _ tree
      refine Keeps.onCatalog forest tree' step (fun i root known => ?_) fun key held known => ?_
      · rw [rootOf_insert] at known
        by_cases here : i = some (Text.toAsciiLowercase tableName)
        · subst here
          rw [Function.update_self] at known
          rw [← known]
          simp only [rootOf]
          rw [show db.2.tables.get? _ = some table from found]
          rfl
        · rwa [Function.update_of_ne here] at known
      · by_cases here : key = Text.toAsciiLowercase tableName
        · subst here
          rw [FiniteMap.get?_insert_self] at known
          obtain rfl := Option.some.inj known
          exact alter table column newSql _ before admitted
        · rw [FiniteMap.get?_insert_of_ne here] at known
          exact holds key held known

/-- A statement that changes rows of a table, and leaves rows with the property there. -/
theorem Keeps.runDml_of (keeps : Keeps P db) {statement : Statement Query}
    (leads : ∀ table, db.2.getTable statement.plan.table = some table →
      ∀ rows pages store count, BTree.Tree (view db.1) table.rootPage rows pages → P table rows →
        statement.run builtins table db.1 = .ok count store → store.allFit = true →
          Leads P table pages db.1 store)
    (run : Database.runDml builtins statement db = .ok () after) (fit : after.1.allFit = true) :
    Keeps P after := by
  obtain ⟨extent, forest, holds⟩ := keeps
  obtain ⟨catalog, between, read, rest⟩ := Exec.bind_eq_ok.mp run
  obtain ⟨rfl, rfl⟩ := own_eq_ok.mp read
  obtain ⟨table, between, lookedUp, rest⟩ := Exec.bind_eq_ok.mp rest
  obtain ⟨found, rfl⟩ := Exec.lift_eq_ok.mp lookedUp
  obtain ⟨count, between, onTable, rest⟩ := Exec.bind_eq_ok.mp rest
  obtain ⟨_, rfl⟩ := Exec.pure_eq_ok.mp rest
  obtain ⟨store, ran, rfl⟩ := onStore_eq_ok.mp onTable
  have known : db.2.tables.get? (Text.toAsciiLowercase statement.plan.table) = some table :=
    Outcome.orErr_eq_ok.mp found
  have rooted : rootOf db.2 (some (Text.toAsciiLowercase statement.plan.table)) =
      some table.rootPage := by
    simp only [rootOf, known, Option.map_some]
  obtain ⟨rows', pages', tree', step, holds'⟩ :=
    leads table known _ _ _ _ (forest.tree _ _ rooted) (holds _ table known) ran fit
  refine ⟨_, forest.change rooted step tree', fun key held known' => ?_⟩
  by_cases here : key = Text.toAsciiLowercase statement.plan.table
  · subst here
    rw [known] at known'
    obtain rfl := Option.some.inj known'
    rw [Function.update_self]
    exact holds'
  · rw [Function.update_of_ne (by simpa using here)]
    exact holds key held known'

theorem Keeps.runDml (keeps : Keeps P db) (inv : RowInvariant P) {statement : Statement Query}
    (run : Database.runDml builtins statement db = .ok () after) (fit : after.1.allFit = true) :
    Keeps P after :=
  keeps.runDml_of (fun _ _ _ _ _ _ tree holds ran fit => inv.statement tree holds ran fit) run fit

theorem Keeps.runDmls (keeps : Keeps P db) (inv : RowInvariant P) {statements : List (Statement Query)}
    (run : Database.runDmls builtins statements db = .ok () after) (fit : after.1.allFit = true) :
    Keeps P after := by
  induction statements generalizing db with
  | nil =>
      obtain ⟨_, rfl⟩ := Exec.pure_eq_ok.mp run
      exact keeps
  | cons statement rest ih =>
      obtain ⟨_, between, first, later⟩ := Exec.bind_eq_ok.mp run
      exact ih (keeps.runDml inv first (tracks_runDmls rest later fit)) later

/-- A request whose new column, if it adds one, is admitted. -/
def StepAdmits (display : SqlDisplay Sub) (Admitted : Table → Column → Rows → Prop)
    (step : Step Sub Query) (db : Database σ) : Prop :=
  match step.request with
  | .ddl statement => ∀ plan, planDdl display db.2 statement = .ok plan → Admits Admitted db plan
  | .dml _ => True

/-- Requests each of which is when it is its turn. -/
def RunAdmits (display : SqlDisplay Sub) (builtins : Builtins)
    (Admitted : Table → Column → Rows → Prop) : List (Step Sub Query) → Database σ → Prop
  | [], _ => True
  | step :: rest, db =>
      StepAdmits display Admitted step db ∧
        ∀ after, Database.run display builtins step db = .ok () after →
          RunAdmits display builtins Admitted rest after

variable {display : SqlDisplay Sub}

/-- A request whose statements, if it has some, keep the property. -/
theorem Keeps.run_of (keeps : Keeps P db) (new : ∀ table, P table [])
    (alter : ∀ table column sql rows, P table rows → Admitted table column rows →
      P (Catalog.withColumn table column sql) rows)
    {step : Step Sub Query} (admits : StepAdmits display Admitted step db)
    (dml : ∀ statements, step.request = .dml statements →
      Database.runDmls builtins statements db = .ok () after → Keeps P after)
    (run : Database.run display builtins step db = .ok () after) (fit : after.1.allFit = true) :
    Keeps P after := by
  obtain ⟨request, fuel, failure⟩ := step
  cases request with
  | ddl statement =>
      obtain ⟨catalog, between, read, rest⟩ := Exec.bind_eq_ok.mp run
      obtain ⟨rfl, rfl⟩ := own_eq_ok.mp read
      obtain ⟨plan, between, lifted, rest⟩ := Exec.bind_eq_ok.mp rest
      obtain ⟨planned, rfl⟩ := Exec.lift_eq_ok.mp lifted
      exact keeps.runDdl new alter (admits plan planned) rest fit
  | dml statements => exact dml statements rfl (autocommit_eq_ok.mp run).2

/-- **Step.** -/
theorem Keeps.run (keeps : Keeps P db) (inv : RowInvariant P) (new : ∀ table, P table [])
    (alter : ∀ table column sql rows, P table rows → Admitted table column rows →
      P (Catalog.withColumn table column sql) rows)
    {step : Step Sub Query} (admits : StepAdmits display Admitted step db)
    (run : Database.run display builtins step db = .ok () after) (fit : after.1.allFit = true) :
    Keeps P after :=
  keeps.run_of new alter admits (fun _ _ ran => keeps.runDmls inv ran fit) run fit

/-- **Run.** -/
theorem Keeps.runAll (keeps : Keeps P db) (inv : RowInvariant P) (new : ∀ table, P table [])
    (alter : ∀ table column sql rows, P table rows → Admitted table column rows →
      P (Catalog.withColumn table column sql) rows)
    {steps : List (Step Sub Query)} (admits : RunAdmits display builtins Admitted steps db)
    (run : Database.runAll display builtins steps db = .ok () after) (fit : after.1.allFit = true) :
    Keeps P after := by
  induction steps generalizing db with
  | nil =>
      obtain ⟨_, rfl⟩ := Exec.pure_eq_ok.mp run
      exact keeps
  | cons step rest ih =>
      obtain ⟨_, between, first, later⟩ := Exec.bind_eq_ok.mp run
      have kept := keeps.run inv new alter admits.1 first (tracks_runAll rest later fit)
      exact ih kept (admits.2 between first) later

/-- A database without tables. -/
theorem Keeps.of_empty {rows : Rows} {pages : List PageId}
    (tree : BTree.Tree (view db.1) catalogRoot rows pages) (none : db.2.tables = .empty) :
    Keeps P db := by
  have absent : ∀ key, db.2.tables.get? key = Option.none := fun key => by
    rw [none]
    rfl
  refine ⟨fun _ => ⟨rows, pages⟩, ⟨fun i root known => ?_, fun i j different first second => ?_⟩,
    fun key table known => ?_⟩
  · cases i with
    | none =>
        obtain rfl := Option.some.inj known
        exact tree
    | some key => simp [rootOf, absent key] at known
  · cases i with
    | none =>
        cases j with
        | none => exact absurd rfl different
        | some key => simp [rootOf, absent key] at second
    | some key => simp [rootOf, absent key] at first
  · rw [absent key] at known
    cases known

end

end Database

end Squrust.Sql
