import Squrust.Core.BTree.LastKey
import Squrust.Sql.RowInvariants

/-!
# Reloading the catalog

A database that is opened again has the schema that `Catalog::load` reads from the rows of the
catalog's tree. What is in memory mirrors these rows when each table has a row that names it and
whose text is read as its definition, and there is no other row (`Mirrors`). Then the catalog that
is read has the tables in memory, under the same ids (`load_of_mirrors`). It has no indexes: they
are not stored.
-/

set_option autoImplicit false

namespace Squrust.Sql

open Squrust.Foundation

open Squrust.Core

namespace Catalog

variable {Sub : Type} (parser : SqlParser Sub)

/-- The row of a table in memory. -/
def rowOf (rowid : Int64) (table : Table) : Row :=
  entryRow rowid "table".toList table.name table.name table.rootPage table.sql

/-- The text of a table is read as its definition. -/
def Describes (table : Table) : Prop :=
  ∃ ct, parser.parse table.sql = .ok [.createTable ct] ∧
    tableFromAst parser.display ct table.sql = .ok { table with rootPage := 0 }

/-- The rows are those of the tables in memory. -/
structure Mirrors (rows : Rows) (catalog : Catalog) : Prop where
  named : ∀ key table, catalog.tables.get? key = some table →
    key = Text.toAsciiLowercase table.name ∧ Describes parser table
  /-- Each table has an id, which is that of its row. -/
  listed : ∀ key table, catalog.tables.get? key = some table → ∃ rowid, catalog.catalogIds.get? key = some rowid
  stored : ∀ key rowid, catalog.catalogIds.get? key = some rowid →
    ∃ table record, catalog.tables.get? key = some table ∧ (rowid, record) ∈ rows ∧
      Row.decode rowid record.val = .ok (rowOf rowid table)
  /-- No other row. -/
  known : ∀ entry ∈ rows, ∃ key, catalog.catalogIds.get? key = some entry.1

variable {parser} {rows : Rows} {catalog : Catalog}

theorem decode_rowOf {rowid : Int64} {table : Table} {record : Record}
    (encoded : asRecord (rowOf rowid table) = .ok record) :
    Row.decode rowid record.val = .ok (rowOf rowid table) :=
  decode_asRecord encoded

/-- The root page of a row is that of its table. -/
theorem rootPage_rowOf (rowid : Int64) (table : Table) :
    (((rowOf rowid table).values[3]?.bind Value.asI64).getD 0).toUInt64.toUInt32 = table.rootPage := by
  change (UInt64.ofNat table.rootPage.toNat).toUInt32 = table.rootPage
  have small : table.rootPage.toNat < 2 ^ 32 := table.rootPage.toNat_lt
  rw [← UInt32.toNat_inj, UInt64.toNat_toUInt32, UInt64.toNat_ofNat']
  omega

theorem parseCreateTable_of_describes {table : Table} (describes : Describes parser table) :
    parseCreateTable parser table.sql = .ok { table with rootPage := 0 } := by
  obtain ⟨ct, parsed, defined⟩ := describes
  rw [parseCreateTable, SqlParser.statements, parsed]
  exact defined

/-- Taking in the row of a table adds the table. -/
theorem absorb_rowOf {table : Table} (describes : Describes parser table) (self : Catalog) (rowid : Int64) :
    self.absorb parser rowid (rowOf rowid table) = .ok { self with
      catalogIds := self.catalogIds.insert (Text.toAsciiLowercase table.name) rowid
      tables := self.tables.insert (Text.toAsciiLowercase table.name) table } := by
  rw [absorb]
  have kind : entryText (rowOf rowid table).values 0 = "table".toList := rfl
  have name : entryText (rowOf rowid table).values 1 = table.name := rfl
  have sql : entryText (rowOf rowid table).values 4 = table.sql := rfl
  simp only [rootPage_rowOf, kind, name, sql, if_true, parseCreateTable_of_describes describes,
    Outcome.ok_bind]
  rfl

/-! ## Reading the rows -/

/-- Entries that are in another catalog too, with a table for each id. -/
structure PartOf (part whole : Catalog) : Prop where
  tables : ∀ key table, part.tables.get? key = some table → whole.tables.get? key = some table
  ids : ∀ key rowid, part.catalogIds.get? key = some rowid → whole.catalogIds.get? key = some rowid
  both : ∀ key rowid, part.catalogIds.get? key = some rowid → ∃ table, part.tables.get? key = some table

theorem partOf_empty : PartOf empty catalog where
  tables _ _ known := nomatch known
  ids _ _ known := nomatch known
  both _ _ known := nomatch known

/-- A row is that of the table under whose name its id is. -/
theorem Mirrors.row (mirrors : Mirrors parser rows catalog) (ascending : Ascending rows) {entry : Int64 × Record}
    (member : entry ∈ rows) :
    ∃ table, catalog.tables.get? (Text.toAsciiLowercase table.name) = some table ∧
      catalog.catalogIds.get? (Text.toAsciiLowercase table.name) = some entry.1 ∧ Describes parser table ∧
      Row.decode entry.1 entry.2.val = .ok (rowOf entry.1 table) := by
  obtain ⟨key, known⟩ := mirrors.known entry member
  obtain ⟨table, record, held, stored, decoded⟩ := mirrors.stored key entry.1 known
  obtain ⟨rfl, describes⟩ := mirrors.named key table held
  have same : some record = some entry.2 :=
    ((Entries.lookup_eq_some_iff ascending).mpr stored).symm.trans
      ((Entries.lookup_eq_some_iff ascending).mpr member)
  obtain rfl := Option.some.inj same
  exact ⟨table, held, known, describes, decoded⟩

theorem visitEntry_row {entry : Int64 × Record} {table : Table} (describes : Describes parser table)
    (decoded : Row.decode entry.1 entry.2.val = .ok (rowOf entry.1 table)) (self : Catalog) :
    visitEntry parser entry.1 entry.2.val self = .ok (.yield { self with
      catalogIds := self.catalogIds.insert (Text.toAsciiLowercase table.name) entry.1
      tables := self.tables.insert (Text.toAsciiLowercase table.name) table }) := by
  rw [visitEntry, decoded, Outcome.ok_bind, absorb_rowOf describes]
  rfl

/-- Two tables have no id in common. -/
theorem Mirrors.key_unique (mirrors : Mirrors parser rows catalog) (ascending : Ascending rows)
    {key key' : Text} {rowid : Int64} (known : catalog.catalogIds.get? key = some rowid)
    (known' : catalog.catalogIds.get? key' = some rowid) : key = key' := by
  obtain ⟨table, record, held, stored, decoded⟩ := mirrors.stored key rowid known
  obtain ⟨table', record', held', stored', decoded'⟩ := mirrors.stored key' rowid known'
  have same : some record = some record' :=
    ((Entries.lookup_eq_some_iff ascending).mpr stored).symm.trans
      ((Entries.lookup_eq_some_iff ascending).mpr stored')
  obtain rfl := Option.some.inj same
  have sameRow : rowOf rowid table = rowOf rowid table' := Except.ok.inj (decoded.symm.trans decoded')
  have sameName : entryText (rowOf rowid table).values 1 = entryText (rowOf rowid table').values 1 := by
    rw [sameRow]
  rw [(mirrors.named key table held).1, (mirrors.named key' table' held').1]
  exact congrArg Text.toAsciiLowercase sameName

/-- Taking in rows adds their tables, and nothing that is not in memory. -/
theorem visitEntries (mirrors : Mirrors parser rows catalog) (ascending : Ascending rows) (rest : Rows)
    (among : rest ⊆ rows) {part : Catalog} (partOf : part.PartOf catalog) :
    ∃ whole, (forIn rest part fun entry self => visitEntry parser entry.1 entry.2.val self) = .ok whole ∧
      whole.indexes = part.indexes ∧ whole.PartOf catalog ∧
      (∀ key rowid, part.catalogIds.get? key = some rowid → whole.catalogIds.get? key = some rowid) ∧
      ∀ entry ∈ rest, ∃ key, catalog.catalogIds.get? key = some entry.1 ∧
        whole.catalogIds.get? key = some entry.1 := by
  induction rest generalizing part with
  | nil => exact ⟨part, rfl, rfl, partOf, fun _ _ known => known, by simp⟩
  | cons entry rest ih =>
      obtain ⟨table, held, known, describes, decoded⟩ := mirrors.row ascending (among List.mem_cons_self)
      let key := Text.toAsciiLowercase table.name
      let next : Catalog := { part with
        catalogIds := part.catalogIds.insert key entry.1
        tables := part.tables.insert key table }
      have grown : next.PartOf catalog := by
        refine ⟨fun other held' there => ?_, fun other rowid there => ?_, fun other rowid there => ?_⟩
        · by_cases here : other = key
          · subst here
            rw [FiniteMap.get?_insert_self] at there
            rwa [← Option.some.inj there]
          · rw [FiniteMap.get?_insert_of_ne here] at there
            exact partOf.tables other held' there
        · by_cases here : other = key
          · subst here
            rw [FiniteMap.get?_insert_self] at there
            rwa [← Option.some.inj there]
          · rw [FiniteMap.get?_insert_of_ne here] at there
            exact partOf.ids other rowid there
        · by_cases here : other = key
          · subst here
            exact ⟨table, FiniteMap.get?_insert_self ..⟩
          · rw [FiniteMap.get?_insert_of_ne here] at there
            obtain ⟨other', there'⟩ := partOf.both other rowid there
            exact ⟨other', (FiniteMap.get?_insert_of_ne here).trans there'⟩
      obtain ⟨whole, ran, indexes, within, kept, each⟩ := ih (fun _ later => among (List.mem_cons_of_mem _ later)) grown
      refine ⟨whole, ?_, indexes, within, fun other rowid there => ?_, List.forall_mem_cons.mpr ⟨?_, each⟩⟩
      · rw [List.forIn_cons, visitEntry_row describes decoded]
        exact ran
      · by_cases here : other = key
        · subst here
          obtain rfl := Option.some.inj (known.symm.trans (partOf.ids _ _ there))
          exact kept key entry.1 (FiniteMap.get?_insert_self ..)
        · exact kept other rowid ((FiniteMap.get?_insert_of_ne here).trans there)
      · exact ⟨key, known, kept key entry.1 (FiniteMap.get?_insert_self ..)⟩

/-- The rows of a mirrored catalog are read as its tables. -/
theorem forIn_of_mirrors (mirrors : Mirrors parser rows catalog) (ascending : Ascending rows) :
    (forIn rows empty fun entry self => visitEntry parser entry.1 entry.2.val self) =
      .ok { catalog with indexes := .empty } := by
  obtain ⟨whole, ran, indexes, within, _, each⟩ := visitEntries mirrors ascending rows (List.Subset.refl _) partOf_empty
  have ids : whole.catalogIds = catalog.catalogIds := by
    refine FiniteMap.ext_get? fun key => Option.ext fun rowid => ⟨within.ids key rowid, fun known => ?_⟩
    obtain ⟨_, _, _, stored, _⟩ := mirrors.stored key rowid known
    obtain ⟨other, known', there⟩ := each _ stored
    rwa [mirrors.key_unique ascending known known']
  have tables : whole.tables = catalog.tables := by
    refine FiniteMap.ext_get? fun key => Option.ext fun table => ⟨within.tables key table, fun held => ?_⟩
    obtain ⟨rowid, known⟩ := mirrors.listed key table held
    obtain ⟨other, there⟩ := within.both key rowid (ids ▸ known)
    rw [there, ← within.tables key other there, held]
  rw [ran]
  obtain ⟨_, _, _⟩ := whole
  exact congrArg Except.ok (Catalog.mk.injEq .. ▸ ⟨tables, indexes, ids⟩)

section

variable {σ : Type} [PageSource σ] [MapSource σ] {store : σ}

/-- The loop over a cursor returns what the loop over its rows does. -/
theorem eachRow_returns {β : Type} {visit : Int64 → Bytes → β → Outcome SqlError (ForInStep β)}
    {cursor : BTreeCursor} {rows : Rows} {size : Nat} {result final : β}
    (remaining : Remaining (view store) cursor rows size)
    (ran : (forIn rows result fun entry result => visit entry.1 entry.2.val result) = .ok final) :
    ∃ after, Exec.Returns (fun fuel => eachRow visit fuel cursor result) store final after := by
  generalize seen_eq : view store = seen at remaining
  induction rows generalizing cursor size result store with
  | nil =>
      obtain rfl := Outcome.pure_eq_ok.mp ran
      obtain ⟨cursor', _, _, steps⟩ := BTreeCursor.next_remaining (σ := σ) remaining
      obtain ⟨after, returns, _⟩ := steps store seen_eq
      exact ⟨after, .of_succ (Exec.Returns.bind returns.mapError ⟨0, fun _ _ => rfl⟩)⟩
  | cons entry rows ih =>
      obtain ⟨cursor', _, remaining', steps⟩ := BTreeCursor.next_remaining (σ := σ) remaining
      obtain ⟨between, returns, same⟩ := steps store seen_eq
      rw [List.forIn_cons] at ran
      obtain ⟨step, visited, rest⟩ := Outcome.bind_eq_ok.mp ran
      have lifted : Exec.Returns (fun _ => Exec.lift (visit entry.1 entry.2.val result) : Nat → Exec σ SqlError _)
          between step between := ⟨0, fun _ _ => by rw [visited]; rfl⟩
      cases step with
      | done value =>
          obtain rfl := Outcome.pure_eq_ok.mp rest
          have stopped : Exec.Returns (fun _ => return value : Nat → Exec σ SqlError β) between value between :=
            ⟨0, fun _ _ => rfl⟩
          exact ⟨between, .of_succ (Exec.Returns.bind returns.mapError (Exec.Returns.bind lifted stopped))⟩
      | yield value =>
          obtain ⟨after, later⟩ := ih rest (same.trans seen_eq) remaining'
          exact ⟨after, .of_succ (Exec.Returns.bind returns.mapError (Exec.Returns.bind lifted later))⟩

/-- **Reloading.** A mirrored catalog is read from the rows, without the indexes. -/
theorem load_of_mirrors {pages : List PageId} (tree : BTree.Tree (view store) catalogRoot rows pages)
    (mirrors : Mirrors parser rows catalog) :
    ∃ after, Exec.Returns (fun fuel => load parser fuel) store { catalog with indexes := .empty } after := by
  have ascending := tree.ascending
  obtain ⟨depth, subtree, _⟩ := tree
  obtain ⟨cursor, size, remaining, seeks⟩ := BTreeCursor.seek_subtree (σ := σ) subtree
    ⟨Bound.bot_lt_key Int64.minValue, Bound.key_le_top _⟩ (.nil depth)
  have all : rows.filter (fun entry => decide (Int64.minValue ≤ entry.1)) = rows :=
    List.filter_eq_self.mpr fun entry _ => decide_eq_true (Int64.minValue_le entry.1)
  rw [List.append_nil, all] at remaining
  obtain ⟨between, returns, same⟩ := seeks store rfl
  rw [← same] at remaining
  obtain ⟨after, later⟩ := eachRow_returns remaining (forIn_of_mirrors mirrors ascending)
  exact ⟨after, Exec.Returns.bind returns.mapError later⟩

end

end Catalog

end Squrust.Sql
