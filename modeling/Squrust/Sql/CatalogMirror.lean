import Squrust.Sql.CatalogReload

/-!
# Statements and the stored catalog

A statement that changes the schema writes the row of a table and changes the catalog in memory,
each on its own. They stay in step, so that the catalog would be read again as it is in memory,
exactly under the conditions of `DdlPlan.Mirrored`:

- a new table gets the id behind the last row of the rightmost leaf, or 1 when that leaf is empty;
  then no row may have the id 1;
- a table that goes takes the rows of its indexes' names with it, and a table may have that name;
- a column that is already there is added again in memory by `ADD COLUMN IF NOT EXISTS`.
-/

set_option autoImplicit false

namespace Squrust.Sql

open Squrust.Foundation

open Squrust.Foundation.Exec (own modifyOwn onStore own_eq_ok modifyOwn_eq_ok onStore_eq_ok)

open Squrust.Core

namespace Catalog

variable {Sub : Type} {parser : SqlParser Sub} {rows : Rows} {catalog : Catalog}

/-! ## Entries that come and go -/

/-- A table is not in memory any more. -/
def without (catalog : Catalog) (key : Text) : Catalog :=
  { catalog with tables := catalog.tables.erase key, catalogIds := catalog.catalogIds.erase key }

/-- A table is in memory, under the id of its row. -/
def withTable (catalog : Catalog) (rowid : Int64) (table : Table) : Catalog :=
  { catalog with
    tables := catalog.tables.insert (Text.toAsciiLowercase table.name) table
    catalogIds := catalog.catalogIds.insert (Text.toAsciiLowercase table.name) rowid }

theorem Mirrors.drop (mirrors : Mirrors parser rows catalog) (ascending : Ascending rows) {key : Text}
    {rowid : Int64} (known : catalog.catalogIds.get? key = some rowid) :
    Mirrors parser (Entries.drop rowid rows) (catalog.without key) where
  named other table held := by
    rw [without, FiniteMap.get?_erase] at held
    split at held
    · cases held
    · exact mirrors.named other table held
  listed other table held := by
    rw [without, FiniteMap.get?_erase] at held
    split at held
    · cases held
    · next different =>
      obtain ⟨id, there⟩ := mirrors.listed other table held
      exact ⟨id, (FiniteMap.get?_erase_of_ne different).trans there⟩
  stored other id there := by
    rw [without, FiniteMap.get?_erase] at there
    split at there
    · cases there
    · next different =>
      obtain ⟨table, record, held, stored, decoded⟩ := mirrors.stored other id there
      refine ⟨table, record, (FiniteMap.get?_erase_of_ne different).trans held, ?_, decoded⟩
      refine Entries.mem_drop.mpr ⟨stored, fun same => different ?_⟩
      obtain rfl : id = rowid := same
      exact mirrors.key_unique ascending there known
  known entry member := by
    obtain ⟨stays, other⟩ := Entries.mem_drop.mp member
    obtain ⟨key', there⟩ := mirrors.known entry stays
    refine ⟨key', (FiniteMap.get?_erase_of_ne ?_).trans there⟩
    rintro rfl
    exact other (Option.some.inj (there.symm.trans known))

theorem Mirrors.put (mirrors : Mirrors parser rows catalog) (table : Table) {rowid : Int64} {record : Record}
    (fresh : ∀ key, catalog.catalogIds.get? key ≠ some rowid)
    (absent : catalog.tables.get? (Text.toAsciiLowercase table.name) = none) (describes : Describes parser table)
    (encoded : asRecord (rowOf rowid table) = .ok record) :
    Mirrors parser (Entries.put rowid record rows) (catalog.withTable rowid table) where
  named key other held := by
    by_cases here : key = Text.toAsciiLowercase table.name
    · subst here
      rw [withTable, FiniteMap.get?_insert_self] at held
      obtain rfl := Option.some.inj held
      exact ⟨rfl, describes⟩
    · rw [withTable, FiniteMap.get?_insert_of_ne here] at held
      exact mirrors.named key other held
  listed key other held := by
    by_cases here : key = Text.toAsciiLowercase table.name
    · subst here
      exact ⟨rowid, FiniteMap.get?_insert_self ..⟩
    · rw [withTable, FiniteMap.get?_insert_of_ne here] at held
      obtain ⟨id, there⟩ := mirrors.listed key other held
      exact ⟨id, (FiniteMap.get?_insert_of_ne here).trans there⟩
  stored key id there := by
    by_cases here : key = Text.toAsciiLowercase table.name
    · subst here
      rw [withTable, FiniteMap.get?_insert_self] at there
      obtain rfl := Option.some.inj there
      exact ⟨table, record, FiniteMap.get?_insert_self .., Entries.mem_put.mpr (.inl rfl), decode_rowOf encoded⟩
    · rw [withTable, FiniteMap.get?_insert_of_ne here] at there
      obtain ⟨other, record', held, stored, decoded⟩ := mirrors.stored key id there
      refine ⟨other, record', (FiniteMap.get?_insert_of_ne here).trans held, ?_, decoded⟩
      exact Entries.mem_put.mpr (.inr ⟨stored, fun same => fresh key (there.trans (congrArg some same))⟩)
  known entry member := by
    rcases Entries.mem_put.mp member with rfl | ⟨stays, other⟩
    · exact ⟨_, FiniteMap.get?_insert_self ..⟩
    · obtain ⟨key, there⟩ := mirrors.known entry stays
      obtain ⟨held, _, present, _⟩ := mirrors.stored key entry.1 there
      refine ⟨key, (FiniteMap.get?_insert_of_ne ?_).trans there⟩
      rintro rfl
      rw [absent] at present
      cases present

/-- A table changes under its name, in its row and in memory. -/
theorem Mirrors.replace (mirrors : Mirrors parser rows catalog) (ascending : Ascending rows) (table : Table)
    {rowid : Int64} {record : Record} (known : catalog.catalogIds.get? (Text.toAsciiLowercase table.name) = some rowid)
    (describes : Describes parser table) (encoded : asRecord (rowOf rowid table) = .ok record) :
    Mirrors parser (Entries.put rowid record rows)
      { catalog with tables := catalog.tables.insert (Text.toAsciiLowercase table.name) table } := by
  have dropped := mirrors.drop ascending known
  have fresh : ∀ key, (catalog.without (Text.toAsciiLowercase table.name)).catalogIds.get? key ≠ some rowid := by
    intro key there
    rw [without, FiniteMap.get?_erase] at there
    split at there
    · cases there
    · next different => exact different (mirrors.key_unique ascending there known)
  have stored := dropped.put table fresh (FiniteMap.get?_erase_self ..) describes encoded
  rw [Entries.put_drop] at stored
  have tables : (catalog.tables.erase (Text.toAsciiLowercase table.name)).insert (Text.toAsciiLowercase table.name)
      table = catalog.tables.insert (Text.toAsciiLowercase table.name) table := by
    refine FiniteMap.ext_get? fun key => ?_
    rw [FiniteMap.get?_insert, FiniteMap.get?_insert, FiniteMap.get?_erase]
    split
    · rfl
    · rfl
  have ids : (catalog.catalogIds.erase (Text.toAsciiLowercase table.name)).insert (Text.toAsciiLowercase table.name)
      rowid = catalog.catalogIds := by
    refine FiniteMap.ext_get? fun key => ?_
    rw [FiniteMap.get?_insert, FiniteMap.get?_erase]
    split
    · next same => rw [same, known]
    · rfl
  rwa [withTable, without, tables, ids] at stored

theorem erase_of_absent {V : Type} {map : FiniteMap Text V} {key : Text} (absent : map.get? key = none) :
    map.erase key = map := by
  refine FiniteMap.ext_get? fun other => ?_
  rw [FiniteMap.get?_erase]
  split
  · next same => rw [same, absent]
  · rfl

/-- Entries go with their rows. A name without an entry makes no difference. -/
theorem Mirrors.withoutEntries (mirrors : Mirrors parser rows catalog) (ascending : Ascending rows) (keys : List Text) :
    Mirrors parser (Catalog.withoutEntries keys catalog.catalogIds rows).2 (keys.foldl without catalog) ∧
      (keys.foldl without catalog).catalogIds = (Catalog.withoutEntries keys catalog.catalogIds rows).1 := by
  induction keys generalizing catalog rows with
  | nil => exact ⟨mirrors, rfl⟩
  | cons key keys ih =>
      cases known : catalog.catalogIds.get? key with
      | some rowid =>
          simp only [Catalog.withoutEntries, known, List.foldl_cons]
          exact ih (mirrors.drop ascending known) (Entries.ascending_drop ascending)
      | none =>
          have absent : catalog.tables.get? key = none := by
            cases held : catalog.tables.get? key with
            | none => rfl
            | some table =>
                obtain ⟨rowid, there⟩ := mirrors.listed key table held
                rw [known] at there
                cases there
          have same : catalog.without key = catalog := by
            rw [without, erase_of_absent absent, erase_of_absent known]
          simp only [Catalog.withoutEntries, known, List.foldl_cons, same]
          exact ih mirrors ascending

theorem get?_foldl_without (keys : List Text) (catalog : Catalog) (other : Text) :
    (keys.foldl without catalog).tables.get? other = if other ∈ keys then none else catalog.tables.get? other := by
  induction keys generalizing catalog with
  | nil => rfl
  | cons key keys ih =>
      rw [List.foldl_cons, ih, without, FiniteMap.get?_erase]
      by_cases here : other = key
      · simp [here]
      · by_cases later : other ∈ keys
        · simp [later]
        · simp [here, later]

end Catalog

/-! ## The id of a new entry -/

section

variable {seen seen' : View PageId PageData} {id : PageId} {leaf leaf' : LeafNode}

theorem rightmostLeaf_unique (rightmost : BTree.RightmostLeaf seen id leaf)
    (rightmost' : BTree.RightmostLeaf seen id leaf') : leaf = leaf' := by
  induction rightmost with
  | leaf holds =>
      cases rightmost' with
      | leaf holds' => exact Node.leaf.inj (holds.unique holds')
      | interior holds' right => cases holds.unique holds'
  | interior holds _ ih =>
      cases rightmost' with
      | leaf holds' => cases holds.unique holds'
      | interior holds' right =>
          obtain rfl := Node.interior.inj (holds.unique holds')
          exact ih right

theorem rightmostLeaf_congr (rightmost : BTree.RightmostLeaf seen id leaf)
    (kept : ∀ id, seen id ≠ .free → seen' id = seen id) : BTree.RightmostLeaf seen' id leaf := by
  induction rightmost with
  | leaf holds => exact .leaf (holds.congr (kept _ holds.live))
  | interior holds _ ih => exact .interior (holds.congr (kept _ holds.live)) ih

end

namespace Catalog

section

variable {σ : Type} [PageSink σ] [MapSink σ] {fuel : Nat} {store stored : Audited σ} {rows : Rows}
  {pages : List PageId}

/-- No row is behind the last one. -/
theorem le_of_getLast? {last : Int64} (ascending : Ascending rows) (greatest : rows.getLast?.map Prod.fst = some last) :
    ∀ entry ∈ rows, entry.1 ≤ last := by
  obtain ⟨final, isLast, rfl⟩ := Option.map_eq_some_iff.mp greatest
  obtain ⟨before, rfl⟩ := List.getLast?_eq_some_iff.mp isLast
  intro entry member
  rcases List.mem_append.mp member with earlier | here
  · exact ((List.pairwise_append.mp ascending).2.2 entry earlier final List.mem_cons_self).le
  · rw [List.mem_singleton.mp here]

/-- The id behind the last row of the rightmost leaf. -/
theorem nextEntry_of_rightmost {leaf : LeafNode} {next : Int64}
    (tree : BTree.Tree (view store) catalogRoot rows pages)
    (rightmost : BTree.RightmostLeaf (view store) catalogRoot leaf)
    (run : nextEntry fuel store = .ok next stored) :
    (leaf.cells ≠ [] → rows.getLast?.map Prod.fst = leaf.cells.getLast?.map LeafCell.rowid) ∧
      (leaf.cells.getLast?.map LeafCell.rowid).getD 0 ≠ Int64.maxValue ∧
      next = (leaf.cells.getLast?.map LeafCell.rowid).getD 0 + 1 := by
  obtain ⟨last, _, small, made, _, ran⟩ := nextEntry_ok tree run
  have tree' : BTree.Tree (view store.sink) catalogRoot rows pages := tree
  obtain ⟨depth, subtree, _⟩ := tree'
  obtain ⟨leaf', rightmost', greatest, reads⟩ := @BTree.rightmost_subtree σ _ _ _ _ _ _ _ _ _ subtree
  obtain rfl := rightmostLeaf_unique rightmost rightmost'
  obtain ⟨same, _⟩ := ((reads store.sink rfl).observes (BTree.steady_lastKey fuel catalogRoot)).of_ok ran
  obtain rfl := Except.ok.inj same
  exact ⟨greatest, small, made⟩

end

end Catalog

/-! ## Statements -/

namespace Database

variable {σ Sub : Type} [PageSink σ]

/-- What is read from the pages is what is in memory, without the indexes. -/
def Reloads (parser : SqlParser Sub) (db : Database σ) : Prop :=
  ∃ after, Exec.Returns (fun fuel => Catalog.load parser fuel) db.1.sink { db.2 with indexes := .empty } after

variable [MapSink σ] {parser : SqlParser Sub} {fuel : Nat} {db after : Database σ} {rows : Rows}
  {pages : List PageId}

/-- The next row of the catalog does not take the place of one: the rightmost leaf has a row, or
the row 1 is free. -/
def FreshEntry (db : Database σ) : Prop :=
  ∀ leaf, BTree.RightmostLeaf (view db.1) catalogRoot leaf → leaf.cells = [] →
    ∀ key, db.2.catalogIds.get? key ≠ some 1

end Database

/-- What keeps the rows of the catalog and the tables in memory in step. -/
def DdlPlan.Mirrored {σ : Type} [PageSink σ] [MapSink σ] (db : Database σ) : DdlPlan → Prop
  | .createTable table _ => db.2.getTable table.name = none → db.FreshEntry
  | .createIndex _ _ => True
  | .dropTable name _ => (db.2.getTable name).isSome → ∀ key ∈ db.2.dependent name,
      key ≠ Text.toAsciiLowercase name → db.2.tables.get? key = none
  | .alterTableAddColumn tableName column _ => ∀ table, db.2.getTable tableName = some table →
      table.columnIndex column.name = none

/-- The texts that are stored are read as the definitions they are of. -/
def DdlPlan.Described {Sub : Type} (parser : SqlParser Sub) (catalog : Catalog) : DdlPlan → Prop
  | .createTable table _ => Catalog.Describes parser table
  | .alterTableAddColumn tableName column newSql => ∀ table, catalog.getTable tableName = some table →
      if (table.columnIndex column.name).isSome then newSql = table.sql
      else Catalog.Describes parser (Catalog.withColumn table column newSql)
  | _ => True

namespace Database

open Catalog (Mirrors)

variable {σ Sub : Type} [PageSink σ] [MapSink σ] {parser : SqlParser Sub} {fuel : Nat} {db after : Database σ}
  {rows : Rows} {pages : List PageId}

/-- Rows that mirror some catalog are read as that one. -/
theorem reloads_iff {reread : Catalog} (tree : BTree.Tree (view db.1) catalogRoot rows pages)
    (mirrors : Mirrors parser rows reread) :
    Reloads parser db ↔ reread.tables = db.2.tables ∧ reread.catalogIds = db.2.catalogIds := by
  have tree' : BTree.Tree (view db.1.sink) catalogRoot rows pages := tree
  obtain ⟨read, returns⟩ := Catalog.load_of_mirrors tree' mirrors
  constructor
  · rintro ⟨_, returns'⟩
    have same := returns.unique returns'
    obtain ⟨tables, _, ids⟩ := Catalog.mk.inj same
    exact ⟨tables, ids⟩
  · rintro ⟨tables, ids⟩
    rw [tables, ids] at returns
    exact ⟨read, returns⟩

/-- What is on the pages after a statement: the rows of a catalog which is the one in memory
exactly under the condition. -/
def Rereads (parser : SqlParser Sub) (after : Database σ) (inStep : Prop) : Prop :=
  ∃ rows pages reread, BTree.Tree (view after.1) catalogRoot rows pages ∧ Mirrors parser rows reread ∧
    ((reread.tables = after.2.tables ∧ reread.catalogIds = after.2.catalogIds) ↔ inStep)

theorem rereads_alter {tableName newSql : Text} {column : Column}
    (tree : BTree.Tree (view db.1) catalogRoot rows pages) (mirrors : Mirrors parser rows db.2)
    (described : DdlPlan.Described parser db.2 (.alterTableAddColumn tableName column newSql))
    (run : Catalog.alterAddColumn fuel tableName column newSql db = .ok () after) (fit : after.1.allFit = true) :
    Rereads parser after (DdlPlan.Mirrored db (.alterTableAddColumn tableName column newSql)) := by
  obtain ⟨table, rowid, record, found, known, encoded, same, pages', tree', _⟩ :=
    Catalog.alterAddColumn_ok tree run fit
  obtain ⟨store, catalog⟩ := after
  obtain rfl : catalog = _ := same
  obtain ⟨keyed, describes⟩ := mirrors.named _ table found
  have stored := described table found
  have inStep : DdlPlan.Mirrored db (.alterTableAddColumn tableName column newSql) ↔
      table.columnIndex column.name = none := by
    refine ⟨fun mirrored => mirrored table found, fun absent other found' => ?_⟩
    rwa [← Option.some.inj (found.symm.trans found')]
  rw [inStep]
  rw [keyed] at known ⊢
  by_cases there : (table.columnIndex column.name).isSome = true
  · rw [if_pos there] at stored
    subst stored
    have replaced := mirrors.replace tree.ascending _ known describes encoded
    refine ⟨_, pages', _, tree', replaced, iff_of_false ?_ ?_⟩
    · rintro ⟨tables, _⟩
      have changed := congrArg (fun map => map.get? (Text.toAsciiLowercase table.name)) tables
      simp only [FiniteMap.get?_insert_self, Option.some.injEq] at changed
      have columns := congrArg (fun table : Table => table.columns.length) changed
      simp [Catalog.withColumn] at columns
    · intro absent
      rw [absent] at there
      cases there
  · rw [if_neg there] at stored
    have replaced := mirrors.replace tree.ascending (Catalog.withColumn table column newSql) known stored encoded
    exact ⟨_, pages', _, tree', replaced, iff_of_true ⟨rfl, rfl⟩ (by simpa using there)⟩

theorem rereads_drop {name : Text} {ifExists dropped : Bool} (tree : BTree.Tree (view db.1) catalogRoot rows pages)
    (mirrors : Mirrors parser rows db.2) (run : Catalog.dropTable fuel name db = .ok dropped after)
    (fit : after.1.allFit = true) : Rereads parser after (DdlPlan.Mirrored db (.dropTable name ifExists)) := by
  obtain ⟨was, effect⟩ := Catalog.dropTable_ok tree run fit
  cases dropped with
  | false =>
      rw [if_neg Bool.false_ne_true] at effect
      subst effect
      refine ⟨rows, pages, _, tree, mirrors, iff_of_true ⟨rfl, rfl⟩ fun present => ?_⟩
      rw [← was] at present
      cases present
  | true =>
      rw [if_pos rfl] at effect
      obtain ⟨tables, ids, pages', tree', _⟩ := effect
      obtain ⟨without, sameIds⟩ := mirrors.withoutEntries tree.ascending
        (Text.toAsciiLowercase name :: db.2.dependent name)
      refine ⟨_, pages', _, tree', without, ?_⟩
      rw [ids, tables, and_iff_left sameIds]
      constructor
      · intro same _ key among different
        have here := congrArg (fun map => map.get? key) same
        simp only [Catalog.get?_foldl_without, FiniteMap.get?_erase_of_ne different] at here
        rwa [if_pos (List.mem_cons_of_mem _ among), eq_comm] at here
      · intro inStep
        refine FiniteMap.ext_get? fun key => ?_
        rw [Catalog.get?_foldl_without, FiniteMap.get?_erase]
        by_cases here : key = Text.toAsciiLowercase name
        · rw [if_pos (List.mem_cons.mpr (.inl here)), if_pos here]
        · rw [if_neg here]
          by_cases among : key ∈ db.2.dependent name
          · rw [if_pos (List.mem_cons_of_mem _ among), inStep was.symm key among here]
          · rw [if_neg (by simp [here, among])]

theorem rereads_create {table : Table} {ifNotExists : Bool} (tree : BTree.Tree (view db.1) catalogRoot rows pages)
    (mirrors : Mirrors parser rows db.2) (describes : Catalog.Describes parser table)
    (absent : db.2.getTable table.name = none)
    (run : (do
        let root ← onStore (Exec.mapError .storage BTree.create)
        Catalog.addTable fuel { table with rootPage := root } :
      Exec (Database σ) SqlError Unit) db = .ok () after)
    (fit : after.1.allFit = true) : Rereads parser after (DdlPlan.Mirrored db (.createTable table ifNotExists)) := by
  obtain ⟨root, between, created, added⟩ := Exec.bind_eq_ok.mp run
  obtain ⟨store, ran, rfl⟩ := onStore_eq_ok.mp created
  have fitCreated := Catalog.tracks_addTable _ added fit
  have inUse : view db.1 catalogRoot ≠ .free := tree.root_live
  obtain ⟨_, replaces⟩ := BTree.create_replaces inUse (Exec.mapError_eq_ok.mp ran) fitCreated
  have kept : ∀ id, view db.1 id ≠ .free → view store id = view db.1 id := fun id live =>
    (replaces.kept live (List.not_mem_nil)).2
  have treeKept : BTree.Tree (view store) catalogRoot rows pages :=
    tree.congr fun id member => kept id (tree.live id member)
  obtain ⟨rowid, record, ⟨read, chose⟩, encoded, same, pages', tree', _⟩ := Catalog.addTable_ok treeKept added fit
  obtain ⟨final, catalog⟩ := after
  obtain rfl : catalog = _ := same
  have ascending := tree.ascending
  obtain ⟨depth, subtree, _⟩ := tree
  obtain ⟨leaf, rightmost, _, _⟩ := @BTree.rightmost_subtree σ _ _ _ _ _ _ _ _ _ subtree
  obtain ⟨greatest, small, chosen⟩ := Catalog.nextEntry_of_rightmost treeKept (rightmostLeaf_congr rightmost kept) chose
  have inStep : DdlPlan.Mirrored db (.createTable table ifNotExists) ↔ ∀ key, db.2.catalogIds.get? key ≠ some rowid := by
    by_cases none : leaf.cells = []
    · rw [none] at chosen
      obtain rfl : rowid = 1 := chosen
      refine ⟨fun mirrored => mirrored absent leaf rightmost none, fun free _ leaf' rightmost' _ => free⟩
    · refine iff_of_true (fun _ leaf' rightmost' none' => ?_) fun key known => ?_
      · rw [rightmostLeaf_unique rightmost rightmost'] at none
        exact absurd none' none
      · obtain ⟨_, _, _, stored, _⟩ := mirrors.stored key rowid known
        cases last : leaf.cells.getLast?.map LeafCell.rowid with
        | none => exact none (List.getLast?_eq_none_iff.mp (Option.map_eq_none_iff.mp last))
        | some id =>
            rw [last] at small chosen
            have below := Catalog.le_of_getLast? ascending ((greatest none).trans last) _ stored
            rw [chosen] at below
            exact lt_irrefl id ((Int64.add_one_le_iff small).mp below)
  rw [inStep]
  by_cases free : ∀ key, db.2.catalogIds.get? key ≠ some rowid
  · have stored := mirrors.put { table with rootPage := root } free absent describes encoded
    exact ⟨_, pages', _, tree', stored, iff_of_true ⟨rfl, rfl⟩ free⟩
  · obtain ⟨other, known⟩ := not_forall_not.mp free
    obtain ⟨held, _, there, _⟩ := mirrors.stored other rowid known
    have different : other ≠ Text.toAsciiLowercase table.name := by
      rintro rfl
      exact absurd (absent.symm.trans there) (by simp)
    have fresh : ∀ key, (db.2.without other).catalogIds.get? key ≠ some rowid := by
      intro key there
      rw [Catalog.without, FiniteMap.get?_erase] at there
      split at there
      · cases there
      · next apart => exact apart (mirrors.key_unique ascending there known)
    have stored := (mirrors.drop ascending known).put { table with rootPage := root } fresh
      ((FiniteMap.get?_erase_of_ne (Ne.symm different)).trans absent) describes encoded
    rw [Entries.put_drop] at stored
    refine ⟨_, pages', _, tree', stored, iff_of_false ?_ free⟩
    rintro ⟨tables, _⟩
    have here := congrArg (fun map => map.get? other) tables
    simp only [Catalog.withTable, Catalog.without, FiniteMap.get?_insert_of_ne different,
      FiniteMap.get?_erase_self, there] at here
    cases here

/-- A statement that changes the schema, and returns. -/
theorem rereads_runDdl {failure : Option StorageError} {plan : DdlPlan}
    (tree : BTree.Tree (view db.1) catalogRoot rows pages) (mirrors : Mirrors parser rows db.2)
    (described : plan.Described parser db.2) (run : Database.runDdl fuel failure plan db = .ok () after)
    (fit : after.1.allFit = true) : Rereads parser after (plan.Mirrored db) := by
  have unchanged : ∀ {inStep : Prop}, inStep → Rereads parser db inStep := fun holds =>
    ⟨rows, pages, db.2, tree, mirrors, iff_of_true ⟨rfl, rfl⟩ holds⟩
  cases plan with
  | createTable table ifNotExists =>
      obtain ⟨catalog, between, read, rest⟩ := Exec.bind_eq_ok.mp run
      obtain ⟨rfl, rfl⟩ := own_eq_ok.mp read
      by_cases there : (db.2.getTable table.name).isSome = true
      · rw [if_pos there] at rest
        split at rest
        · obtain ⟨_, rfl⟩ := Exec.pure_eq_ok.mp rest
          refine unchanged fun absent => ?_
          rw [absent] at there
          cases there
        · simp at rest
      · rw [if_neg there] at rest
        exact rereads_create tree mirrors described (by simpa using there) (autocommit_eq_ok.mp rest).2 fit
  | createIndex index ifNotExists =>
      obtain ⟨catalog, between, read, rest⟩ := Exec.bind_eq_ok.mp run
      obtain ⟨rfl, rfl⟩ := own_eq_ok.mp read
      split at rest
      · split at rest
        · obtain ⟨_, rfl⟩ := Exec.pure_eq_ok.mp rest
          exact unchanged trivial
        · simp at rest
      · obtain rfl := modifyOwn_eq_ok.mp (autocommit_eq_ok.mp rest).2
        exact unchanged trivial
  | dropTable name ifExists =>
      obtain ⟨dropped, between, ran, rest⟩ := Exec.bind_eq_ok.mp run
      have left : after = between := by
        split at rest
        · simp at rest
        · exact (Exec.pure_eq_ok.mp rest).2.symm
      subst left
      exact rereads_drop tree mirrors (autocommit_eq_ok.mp ran).2 fit
  | alterTableAddColumn tableName column newSql =>
      exact rereads_alter tree mirrors described (autocommit_eq_ok.mp run).2 fit

end Database

/-! ## Texts -/

/-- The parser reads what the statement stores: the text of a definition as the definition, and
the text with a column more as the definition with a column more. -/
def DdlStatement.Reads {Sub : Type} (parser : SqlParser Sub) (catalog : Catalog) : DdlStatement Sub → Prop
  | .createTable ct => parser.parse (parser.display.createTable ct) = .ok [.createTable ct]
  | .alterTable name [.addColumn columnDef _] => ∀ table ct newSql,
      catalog.getTable (objectNameToString name) = some table → parser.parse table.sql = .ok [.createTable ct] →
        spliceColumn table.sql (parser.display.columnDef columnDef) = .ok newSql →
          parser.parse newSql = .ok [.createTable { ct with columns := ct.columns ++ [columnDef] }]
  | _ => True

section

variable {Sub : Type} {parser : SqlParser Sub} {catalog : Catalog}

/-- A column that may be added is no key. -/
theorem primaryKey_of_checkAdded {column : Column} (checked : checkAdded column = .ok ()) :
    column.primaryKey = false := by
  unfold checkAdded at checked
  split at checked
  · cases checked
  · next other => exact Bool.eq_false_iff.mpr other

theorem findAlias_append {columns : List Column} {column : Column} (other : column.primaryKey = false) :
    findAlias (columns ++ [column]) = findAlias columns := by
  rw [findAlias, findAlias, List.findIdx?_append]
  simp [other]

/-- A definition with a column more is that of the table with a column more. -/
theorem describes_withColumn {table : Table} {ct : CreateTable Sub} {columnDef : ColumnDef Sub} {column : Column}
    {newSql : Text} (defined : tableFromAst parser.display ct table.sql = .ok { table with rootPage := 0 })
    (made : columnFromAst parser.display columnDef = .ok column) (other : column.primaryKey = false)
    (reads : parser.parse newSql = .ok [.createTable { ct with columns := ct.columns ++ [columnDef] }]) :
    Catalog.Describes parser (Catalog.withColumn table column newSql) := by
  refine ⟨_, reads, ?_⟩
  obtain ⟨columns, mapped, same⟩ := Outcome.bind_eq_ok.mp defined
  have appended : (ct.columns ++ [columnDef]).mapM (columnFromAst parser.display) = .ok (columns ++ [column]) := by
    rw [List.mapM_append, mapped, Outcome.ok_bind, List.mapM_cons, made]
    rfl
  obtain ⟨name, _, rootPage, rowidAlias, sql, inRange⟩ := table
  obtain ⟨rfl, rfl, _, rfl, _⟩ := Table.mk.inj (Outcome.pure_eq_ok.mp same)
  rw [tableFromAst, appended, Outcome.ok_bind]
  simp only [Catalog.withColumn, findAlias_append other]
  rfl

theorem planAlterTable_described {name : List Text} {columnDef : ColumnDef Sub} {ifNotExists : Bool} {plan : DdlPlan}
    (described : ∀ name table, catalog.getTable name = some table → Catalog.Describes parser table)
    (reads : (DdlStatement.alterTable name [.addColumn columnDef ifNotExists]).Reads parser catalog)
    (planned : planAlterTable parser.display catalog name [.addColumn columnDef ifNotExists] = .ok plan) :
    plan.Described parser catalog := by
  obtain ⟨table, lookedUp, rest⟩ := Outcome.bind_eq_ok.mp planned
  have found : catalog.getTable (objectNameToString name) = some table := Outcome.orErr_eq_ok.mp lookedUp
  obtain ⟨column, made, rest⟩ := Outcome.bind_eq_ok.mp rest
  have only : ∀ other, catalog.getTable (objectNameToString name) = some other → other = table := fun other found' =>
    Option.some.inj (found'.symm.trans found)
  by_cases there : (table.columnIndex column.name).isSome = true
  · rw [if_pos there] at rest
    split at rest
    · obtain rfl := Outcome.pure_eq_ok.mp rest
      intro other found'
      obtain rfl := only other found'
      rw [if_pos there]
    · cases rest
  · rw [if_neg there] at rest
    obtain ⟨_, checked, rest⟩ := Outcome.bind_eq_ok.mp rest
    obtain ⟨newSql, spliced, rest⟩ := Outcome.bind_eq_ok.mp rest
    obtain rfl := Outcome.pure_eq_ok.mp rest
    intro other found'
    obtain rfl := only other found'
    rw [if_neg there]
    obtain ⟨ct, parsed, defined⟩ := described _ other found
    exact describes_withColumn defined made (primaryKey_of_checkAdded checked)
      (reads other ct newSql found parsed spliced)

theorem operations_of_planAlterTable {display : SqlDisplay Sub} {name : List Text}
    {operations : List (AlterTableOperation Sub)} {plan : DdlPlan}
    (planned : planAlterTable display catalog name operations = .ok plan) :
    ∃ columnDef ifNotExists, operations = [.addColumn columnDef ifNotExists] := by
  obtain ⟨_, _, rest⟩ := Outcome.bind_eq_ok.mp planned
  rcases operations with _ | ⟨op, _ | ⟨second, others⟩⟩
  · cases rest
  · cases op with
    | addColumn columnDef ifNotExists => exact ⟨columnDef, ifNotExists, rfl⟩
    | other op => cases rest
  · cases op with
    | addColumn columnDef ifNotExists => cases rest
    | other op => cases rest

/-- What is planned is stored under a text that is read as it. -/
theorem planDdl_described {statement : DdlStatement Sub} {plan : DdlPlan}
    (described : ∀ name table, catalog.getTable name = some table → Catalog.Describes parser table)
    (reads : statement.Reads parser catalog) (planned : planDdl parser.display catalog statement = .ok plan) :
    plan.Described parser catalog := by
  cases statement with
  | createTable ct =>
      obtain ⟨table, defined, rest⟩ := Outcome.bind_eq_ok.mp planned
      obtain rfl := Outcome.pure_eq_ok.mp rest
      obtain ⟨columns, mapped, same⟩ := Outcome.bind_eq_ok.mp defined
      obtain rfl := Outcome.pure_eq_ok.mp same
      exact ⟨ct, reads, defined⟩
  | createIndex ci =>
      obtain ⟨index, _, rest⟩ := Outcome.bind_eq_ok.mp planned
      obtain rfl := Outcome.pure_eq_ok.mp rest
      trivial
  | drop isTable objectType ifExists names =>
      cases isTable with
      | false => cases planned
      | true =>
          obtain ⟨name, _, rest⟩ := Outcome.bind_eq_ok.mp planned
          obtain rfl := Outcome.pure_eq_ok.mp rest
          trivial
  | alterTable name operations =>
      obtain ⟨columnDef, ifNotExists, rfl⟩ := operations_of_planAlterTable planned
      exact planAlterTable_described described reads planned

end

end Squrust.Sql
