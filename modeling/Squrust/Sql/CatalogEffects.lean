import Squrust.Core.BTree.Forest
import Squrust.Sql.Catalog
import Squrust.Sql.DmlEffects

/-!
# What the statements do to the catalog

Each change of the catalog, when it returned: what the tree on page 1 holds afterwards,
on which pages, and what is in memory (`addTable_ok`, `alterAddColumn_ok`,
`dropTable_ok`). Dropping entries is a function of the rows and of the ids that are in
memory (`withoutEntries`).

As before, nothing is said about runs that wrote a node that does not fit its page.
-/

set_option autoImplicit false

namespace Squrust.Sql

open Squrust.Foundation

open Squrust.Foundation.Exec (own modifyOwn onStore own_eq_ok modifyOwn_eq_ok onStore_eq_ok)

open Squrust.Core

namespace Catalog

variable {σ α β : Type}

/-- When every node fitted after the code returned, every node fitted before it. -/
def Tracks (code : Exec (Audited σ × Catalog) SqlError α) : Prop :=
  ∀ ⦃db after : Audited σ × Catalog⦄ ⦃value : α⦄, code db = .ok value after →
    after.1.allFit = true → db.1.allFit = true

namespace Tracks

theorem pure (value : α) : Tracks (return value : Exec (Audited σ × Catalog) SqlError α) := by
  intro db after given run fit
  obtain ⟨_, rfl⟩ := Exec.pure_eq_ok.mp run
  exact fit

theorem lift (outcome : Outcome SqlError α) :
    Tracks (Exec.lift outcome : Exec (Audited σ × Catalog) SqlError α) := by
  intro db after given run fit
  obtain ⟨_, rfl⟩ := Exec.lift_eq_ok.mp run
  exact fit

theorem own : Tracks (own : Exec (Audited σ × Catalog) SqlError Catalog) := by
  intro db after given run fit
  obtain ⟨_, rfl⟩ := own_eq_ok.mp run
  exact fit

theorem modifyOwn (f : Catalog → Catalog) :
    Tracks (modifyOwn f : Exec (Audited σ × Catalog) SqlError Unit) := by
  intro db after given run fit
  obtain rfl := modifyOwn_eq_ok.mp run
  exact fit

theorem onStore {code : Exec (Audited σ) SqlError α} (tracked : Audited.Tracked code) :
    Tracks (onStore code : Exec (Audited σ × Catalog) SqlError α) := by
  intro db after given run fit
  obtain ⟨store, ran, rfl⟩ := onStore_eq_ok.mp run
  exact tracked.ok ran fit

theorem bind {first : Exec (Audited σ × Catalog) SqlError α}
    {next : α → Exec (Audited σ × Catalog) SqlError β} (earlier : Tracks first)
    (later : ∀ value, Tracks (next value)) : Tracks (first >>= next) := by
  intro db after given run fit
  obtain ⟨value, between, one, two⟩ := Exec.bind_eq_ok.mp run
  exact earlier one (later value two fit)

end Tracks

section

variable [PageSink σ] {fuel : Nat}

theorem tracked_putEntry (row : Row) :
    Audited.Tracked (putEntry fuel row : Exec (Audited σ) SqlError Unit) := by
  apply Audited.Tracked.bind (.lift _)
  intro record
  exact (BTree.tracked_insert _ _ _ _).mapError SqlError.storage

theorem tracked_nextEntry : Audited.Tracked (nextEntry fuel : Exec (Audited σ) SqlError Int64) := by
  apply Audited.Tracked.bind (tracked_onPages _)
  intro last
  by_cases top : last.getD 0 = Int64.maxValue
  · simp only [if_pos top]
    exact .lift _
  · simp only [if_neg top]
    exact .pure _

theorem tracked_insertEntry (entryType name tblName : Text) (rootpage : PageId) (sql : Text) :
    Audited.Tracked (insertEntry fuel entryType name tblName rootpage sql :
      Exec (Audited σ) SqlError Int64) :=
  .bind tracked_nextEntry fun _ => .bind (tracked_putEntry _) fun _ => .pure _

theorem tracks_addTable (table : Table) :
    Tracks (addTable fuel table : Exec (Audited σ × Catalog) SqlError Unit) :=
  .bind (.onStore (tracked_insertEntry _ _ _ _ _)) fun _ => .bind (.modifyOwn _) fun _ => .modifyOwn _

theorem tracks_alterAddColumn (tableName : Text) (column : Column) (newSql : Text) :
    Tracks (alterAddColumn fuel tableName column newSql :
      Exec (Audited σ × Catalog) SqlError Unit) :=
  .bind .own fun _ => .bind (.lift _) fun _ => .bind (.lift _) fun _ =>
    .bind (.onStore (tracked_putEntry _)) fun _ => .modifyOwn _

theorem tracks_dropEntry (key : Text) :
    Tracks (dropEntry fuel key : Exec (Audited σ × Catalog) SqlError Unit) := by
  refine .bind .own fun self => ?_
  split
  · exact .pure _
  · exact .bind (.modifyOwn _) fun _ => .bind
      (.onStore ((BTree.tracked_delete _ _ _).mapError SqlError.storage)) fun _ => .pure _

theorem tracks_dropIndexes (keys : List Text) :
    Tracks (dropIndexes fuel keys : Exec (Audited σ × Catalog) SqlError Unit) := by
  induction keys with
  | nil => exact .pure _
  | cons key keys ih => exact .bind (tracks_dropEntry key) fun _ => .bind (.modifyOwn _) fun _ => ih

theorem tracks_dropTable (name : Text) :
    Tracks (dropTable fuel name : Exec (Audited σ × Catalog) SqlError Bool) := by
  refine .bind .own fun self => ?_
  split
  · exact .pure _
  · exact .bind (tracks_dropEntry _) fun _ => .bind (.modifyOwn _) fun _ =>
      .bind (tracks_dropIndexes _) fun _ => .pure _

end

/-! ## Rows of the catalog -/

section

variable [PageSink σ] [MapSink σ] {fuel : Nat} {store stored : Audited σ} {rows : Rows}
  {pages : List PageId}

/-- A row takes the place of the one with its id. -/
theorem putEntry_ok {row : Row} (tree : BTree.Tree (view store) catalogRoot rows pages)
    (run : putEntry fuel row store = .ok () stored) (fit : stored.allFit = true) :
    ∃ record, asRecord row = .ok record ∧
      ∃ pages', BTree.Tree (view stored) catalogRoot (Entries.put row.rowId record rows) pages' ∧
        Replaces (view store) (view stored) pages pages' := by
  obtain ⟨record, between, lifted, put⟩ := Exec.bind_eq_ok.mp run
  obtain ⟨made, rfl⟩ := Exec.lift_eq_ok.mp lifted
  exact ⟨record, made, BTree.insert_ok tree (Exec.mapError_eq_ok.mp put) fit⟩

theorem deleteEntry_ok {rowid : Int64} {found : Bool}
    (tree : BTree.Tree (view store) catalogRoot rows pages)
    (run : deleteEntry fuel rowid store = .ok found stored) (fit : stored.allFit = true) :
    ∃ pages', BTree.Tree (view stored) catalogRoot (Entries.drop rowid rows) pages' ∧
      Replaces (view store) (view stored) pages pages' :=
  (BTree.delete_ok tree (Exec.mapError_eq_ok.mp run) fit).2

/-- The id of a new entry comes behind what `last_key` gives. -/
theorem nextEntry_ok {next : Int64} (tree : BTree.Tree (view store) catalogRoot rows pages)
    (run : nextEntry fuel store = .ok next stored) :
    ∃ last : Option Int64, (∀ key, last = some key → rows.getLast?.map Prod.fst = some key) ∧
      last.getD 0 ≠ Int64.maxValue ∧ next = last.getD 0 + 1 ∧ view stored = view store ∧
      BTree.lastKey fuel catalogRoot store.sink = .ok last stored.sink := by
  obtain ⟨last, read, ran, chose⟩ := Exec.bind_eq_ok.mp run
  have tree' : BTree.Tree (view store.sink) catalogRoot rows pages := tree
  obtain ⟨known, greatest, reads⟩ := @BTree.lastKey_observes σ _ _ _ _ _ _ tree'
  obtain ⟨same, sameSight⟩ :=
    (onPages_observes ((reads store.sink rfl fuel).mapError SqlError.storage)).of_ok ran
  obtain rfl := Except.ok.inj same
  obtain ⟨sink, onSink, put⟩ := Exec.onPart_eq_ok.mp ran
  by_cases top : known.getD 0 = Int64.maxValue
  · simp only [if_pos top] at chose
    cases (Exec.lift_eq_ok.mp chose).1
  · simp only [if_neg top] at chose
    obtain ⟨rfl, rfl⟩ := Exec.pure_eq_ok.mp chose
    refine ⟨known, greatest, top, rfl, (sight_eq sameSight).1, ?_⟩
    rw [← put]
    exact Exec.mapError_eq_ok.mp onSink

/-- A new entry. -/
theorem insertEntry_ok {entryType name tblName sql : Text} {rootpage : PageId} {rowid : Int64}
    (tree : BTree.Tree (view store) catalogRoot rows pages)
    (run : insertEntry fuel entryType name tblName rootpage sql store = .ok rowid stored)
    (fit : stored.allFit = true) :
    (∃ read, nextEntry fuel store = .ok rowid read) ∧
      ∃ record, asRecord (entryRow rowid entryType name tblName rootpage sql) = .ok record ∧
      ∃ pages', BTree.Tree (view stored) catalogRoot (Entries.put rowid record rows) pages' ∧
        Replaces (view store) (view stored) pages pages' := by
  obtain ⟨next, read, chose, rest⟩ := Exec.bind_eq_ok.mp run
  obtain ⟨_, put, wrote, rest⟩ := Exec.bind_eq_ok.mp rest
  obtain ⟨rfl, rfl⟩ := Exec.pure_eq_ok.mp rest
  obtain ⟨_, _, _, _, same, _⟩ := nextEntry_ok tree chose
  rw [← same] at tree ⊢
  exact ⟨⟨read, chose⟩, putEntry_ok tree wrote fit⟩

end

/-! ## Tables -/

section

variable [PageSink σ] [MapSink σ] {fuel : Nat} {db after : Audited σ × Catalog} {rows : Rows}
  {pages : List PageId}

/-- **A new table** has a row under a new id, and is in memory. -/
theorem addTable_ok {table : Table} (tree : BTree.Tree (view db.1) catalogRoot rows pages)
    (run : addTable fuel table db = .ok () after) (fit : after.1.allFit = true) :
    ∃ rowid record, (∃ read, nextEntry fuel db.1 = .ok rowid read) ∧
      asRecord (entryRow rowid "table".toList table.name table.name table.rootPage table.sql) =
        .ok record ∧
      after.2 = { db.2 with
        catalogIds := db.2.catalogIds.insert (Text.toAsciiLowercase table.name) rowid
        tables := db.2.tables.insert (Text.toAsciiLowercase table.name) table } ∧
      ∃ pages', BTree.Tree (view after.1) catalogRoot (Entries.put rowid record rows) pages' ∧
        Replaces (view db.1) (view after.1) pages pages' := by
  obtain ⟨rowid, one, inserted, rest⟩ := Exec.bind_eq_ok.mp run
  obtain ⟨_, two, ids, rest⟩ := Exec.bind_eq_ok.mp rest
  obtain ⟨store, ran, rfl⟩ := onStore_eq_ok.mp inserted
  obtain rfl := modifyOwn_eq_ok.mp ids
  obtain rfl := modifyOwn_eq_ok.mp rest
  obtain ⟨chose, record, made, pages', tree', replaces⟩ := insertEntry_ok tree ran fit
  exact ⟨rowid, record, chose, made, rfl, pages', tree', replaces⟩

/-- **A further column**: the row of the table has the new text, and the table in memory has the
column. -/
theorem alterAddColumn_ok {tableName newSql : Text} {column : Column}
    (tree : BTree.Tree (view db.1) catalogRoot rows pages)
    (run : alterAddColumn fuel tableName column newSql db = .ok () after)
    (fit : after.1.allFit = true) :
    ∃ table rowid record, db.2.getTable tableName = some table ∧
      db.2.catalogIds.get? (Text.toAsciiLowercase tableName) = some rowid ∧
      asRecord (entryRow rowid "table".toList table.name table.name table.rootPage newSql) =
        .ok record ∧
      after.2 = { db.2 with
        tables := db.2.tables.insert (Text.toAsciiLowercase tableName)
          (withColumn table column newSql) } ∧
      ∃ pages', BTree.Tree (view after.1) catalogRoot (Entries.put rowid record rows) pages' ∧
        Replaces (view db.1) (view after.1) pages pages' := by
  obtain ⟨self, one, read, rest⟩ := Exec.bind_eq_ok.mp run
  obtain ⟨rfl, rfl⟩ := own_eq_ok.mp read
  obtain ⟨table, two, lookedUp, rest⟩ := Exec.bind_eq_ok.mp rest
  obtain ⟨found, rfl⟩ := Exec.lift_eq_ok.mp lookedUp
  obtain ⟨rowid, three, lookedUp', rest⟩ := Exec.bind_eq_ok.mp rest
  obtain ⟨known, rfl⟩ := Exec.lift_eq_ok.mp lookedUp'
  rw [Outcome.orErr_eq_ok] at found known
  obtain ⟨_, four, put, rest⟩ := Exec.bind_eq_ok.mp rest
  obtain ⟨store, ran, rfl⟩ := onStore_eq_ok.mp put
  obtain rfl := modifyOwn_eq_ok.mp rest
  obtain ⟨record, made, pages', tree', replaces⟩ := putEntry_ok tree ran fit
  exact ⟨table, rowid, record, found, known, made, rfl, pages', tree', replaces⟩

/-- The rows and the ids without the entries of some names, one after the other. -/
def withoutEntries : List Text → FiniteMap Text Int64 → Rows → FiniteMap Text Int64 × Rows
  | [], ids, rows => (ids, rows)
  | key :: keys, ids, rows =>
      match ids.get? key with
      | none => withoutEntries keys ids rows
      | some rowid => withoutEntries keys (ids.erase key) (Entries.drop rowid rows)

theorem dropEntry_ok {key : Text} (tree : BTree.Tree (view db.1) catalogRoot rows pages)
    (run : dropEntry fuel key db = .ok () after) (fit : after.1.allFit = true) :
    after.2 = { db.2 with catalogIds := (withoutEntries [key] db.2.catalogIds rows).1 } ∧
      ∃ pages', BTree.Tree (view after.1) catalogRoot
          (withoutEntries [key] db.2.catalogIds rows).2 pages' ∧
        Replaces (view db.1) (view after.1) pages pages' := by
  obtain ⟨self, one, read, rest⟩ := Exec.bind_eq_ok.mp run
  obtain ⟨rfl, rfl⟩ := own_eq_ok.mp read
  cases known : db.2.catalogIds.get? key with
  | none =>
      rw [known] at rest
      obtain ⟨_, rfl⟩ := Exec.pure_eq_ok.mp rest
      rw [show withoutEntries [key] db.2.catalogIds rows = (db.2.catalogIds, rows) by
        simp only [withoutEntries, known]]
      exact ⟨rfl, pages, tree, .refl tree.live⟩
  | some rowid =>
      rw [known] at rest
      obtain ⟨_, two, erased, rest⟩ := Exec.bind_eq_ok.mp rest
      obtain rfl := modifyOwn_eq_ok.mp erased
      obtain ⟨found, three, deleted, rest⟩ := Exec.bind_eq_ok.mp rest
      obtain ⟨_, rfl⟩ := Exec.pure_eq_ok.mp rest
      obtain ⟨store, ran, rfl⟩ := onStore_eq_ok.mp deleted
      rw [show withoutEntries [key] db.2.catalogIds rows =
          (db.2.catalogIds.erase key, Entries.drop rowid rows) by simp only [withoutEntries, known]]
      exact ⟨rfl, deleteEntry_ok tree ran fit⟩

theorem dropIndexes_ok {keys : List Text} (tree : BTree.Tree (view db.1) catalogRoot rows pages)
    (run : dropIndexes fuel keys db = .ok () after) (fit : after.1.allFit = true) :
    after.2.tables = db.2.tables ∧
      after.2.catalogIds = (withoutEntries keys db.2.catalogIds rows).1 ∧
      ∃ pages', BTree.Tree (view after.1) catalogRoot
          (withoutEntries keys db.2.catalogIds rows).2 pages' ∧
        Replaces (view db.1) (view after.1) pages pages' := by
  induction keys generalizing db rows pages with
  | nil =>
      obtain ⟨_, rfl⟩ := Exec.pure_eq_ok.mp run
      exact ⟨rfl, rfl, pages, tree, .refl tree.live⟩
  | cons key keys ih =>
      obtain ⟨_, one, dropped, rest⟩ := Exec.bind_eq_ok.mp run
      obtain ⟨_, two, erased, rest⟩ := Exec.bind_eq_ok.mp rest
      obtain rfl := modifyOwn_eq_ok.mp erased
      have fitOne := tracks_dropIndexes keys rest fit
      obtain ⟨same, pages₁, tree₁, step₁⟩ := dropEntry_ok tree dropped fitOne
      obtain ⟨tables, ids, pages₂, tree₂, step₂⟩ := @ih (one.1, { one.2 with indexes := one.2.indexes.erase key }) _ _ tree₁ rest
      rw [same] at tables ids tree₂
      simp only at tables ids tree₂ step₂
      have split : withoutEntries (key :: keys) db.2.catalogIds rows =
          withoutEntries keys (withoutEntries [key] db.2.catalogIds rows).1
            (withoutEntries [key] db.2.catalogIds rows).2 := by
        simp only [withoutEntries]
        cases db.2.catalogIds.get? key with
        | none => rfl
        | some rowid => rfl
      rw [split]
      exact ⟨tables, ids, pages₂, tree₂, step₁.trans step₂⟩

/-- **A table that goes**, with its indexes. -/
theorem dropTable_ok {name : Text} {dropped : Bool}
    (tree : BTree.Tree (view db.1) catalogRoot rows pages)
    (run : dropTable fuel name db = .ok dropped after) (fit : after.1.allFit = true) :
    dropped = (db.2.getTable name).isSome ∧
      if dropped then
        let keys := Text.toAsciiLowercase name :: db.2.dependent name
        after.2.tables = db.2.tables.erase (Text.toAsciiLowercase name) ∧
          after.2.catalogIds = (withoutEntries keys db.2.catalogIds rows).1 ∧
          ∃ pages', BTree.Tree (view after.1) catalogRoot
              (withoutEntries keys db.2.catalogIds rows).2 pages' ∧
            Replaces (view db.1) (view after.1) pages pages'
      else after = db := by
  obtain ⟨self, one, read, rest⟩ := Exec.bind_eq_ok.mp run
  obtain ⟨rfl, rfl⟩ := own_eq_ok.mp read
  unfold getTable
  cases found : db.2.tables.get? (Text.toAsciiLowercase name) with
  | none =>
      simp only [found, Option.isNone_none, if_true] at rest
      obtain ⟨rfl, rfl⟩ := Exec.pure_eq_ok.mp rest
      exact ⟨rfl, rfl⟩
  | some table =>
      simp only [found, Option.isNone_some, Bool.false_eq_true, if_false] at rest
      obtain ⟨_, two, first, rest⟩ := Exec.bind_eq_ok.mp rest
      obtain ⟨_, three, erased, rest⟩ := Exec.bind_eq_ok.mp rest
      obtain rfl := modifyOwn_eq_ok.mp erased
      obtain ⟨_, four, others, rest⟩ := Exec.bind_eq_ok.mp rest
      obtain ⟨rfl, rfl⟩ := Exec.pure_eq_ok.mp rest
      have fitTwo := tracks_dropIndexes _ others fit
      obtain ⟨same, pages₁, tree₁, step₁⟩ := dropEntry_ok tree first fitTwo
      have without : BTree.Tree (view (two.1, { two.2 with
          tables := two.2.tables.erase (Text.toAsciiLowercase name) }).1) catalogRoot _ pages₁ := tree₁
      obtain ⟨tables, ids, pages₂, tree₂, step₂⟩ := dropIndexes_ok without others fit
      rw [same] at tables ids tree₂
      simp only at tables ids tree₂ step₂
      refine ⟨rfl, tables, ?_⟩
      have split : withoutEntries (Text.toAsciiLowercase name :: db.2.dependent name)
          db.2.catalogIds rows =
            withoutEntries (db.2.dependent name)
              (withoutEntries [Text.toAsciiLowercase name] db.2.catalogIds rows).1
              (withoutEntries [Text.toAsciiLowercase name] db.2.catalogIds rows).2 := by
        simp only [withoutEntries]
        cases db.2.catalogIds.get? (Text.toAsciiLowercase name) with
        | none => rfl
        | some rowid => rfl
      rw [split]
      exact ⟨ids, pages₂, tree₂, step₁.trans step₂⟩

end

end Catalog

end Squrust.Sql
