import Squrust.Sql.DmlEffects

/-!
# UNIQUE columns

Two rows clash when they hold equal values, not NULL, in the same UNIQUE column
(`Clash`). A statement looks for the first row that clashes with what it is about to
store. INSERT and UPDATE stop when there is one, so they keep the rows free of
clashes. INSERT OR REPLACE deletes that row and the one with the new id, and no
other: rows stay free of clashes when no other row clashes (`Statement.Clears`,
`unique_of_clears`), and need not otherwise (`replace_leaves_clash`).
-/

set_option autoImplicit false

namespace Squrust.Sql

open Squrust.Foundation

open Squrust.Core

/-! ## Equal values -/

namespace Value

theorem list_eq_symm {α : Type} [Ord α] [Std.LawfulEqOrd α] {a b : List α}
    (forth : (some (Ord.compare a b) == some Ordering.eq) = true) :
    (some (Ord.compare b a) == some Ordering.eq) = true := by
  rw [beq_iff_eq, Option.some.injEq] at forth ⊢
  rw [Std.LawfulEqOrd.eq_of_compare forth]
  exact Std.ReflOrd.compare_self
/-- Equality of values is symmetric. -/
theorem eq_symm {x y : Value} (same : x.eq y = true) : y.eq x = true := by
  have numbers {a b : Float64} (forth : (a.partialCmp b == some .eq) = true) :
      (b.partialCmp a == some .eq) = true := by
    rw [beq_iff_eq] at forth ⊢
    exact Float64.partialCmp_eq_symm forth
  have texts {a b : Text} (forth : (some (Ord.compare a b) == some .eq) = true) :
      (some (Ord.compare b a) == some .eq) = true := list_eq_symm forth
  have blobs {a b : Bytes} (forth : (some (Ord.compare a b) == some .eq) = true) :
      (some (Ord.compare b a) == some .eq) = true := list_eq_symm forth
  cases x <;> cases y <;>
    first | exact numbers same | exact texts same | exact blobs same | exact same

/-- What is equal to a value as it is read back is equal to the value. -/
theorem eq_of_eq_stored {x v : Value} (same : x.eq v.stored = true) : x.eq v = true := by
  cases v with
  | boolean b =>
      have bits : asDouble (bit b) = if b then Float64.one else 0 := by cases b <;> decide +kernel
      cases x with
      | integer | real | boolean =>
          simp only [Value.eq, compare, stored, numericOnly, bits] at same ⊢
          exact same
      | _ => exact same
  | json j =>
      cases x with
      | text t => rfl
      | _ => exact same
  | _ => exact same

theorem isNull_stored (v : Value) : v.stored.isNull = v.isNull := by
  cases v <;> rfl

/-- What is equal to a value that is not NULL is not NULL. -/
theorem not_isNull_of_eq {x v : Value} (present : v.isNull = false) (same : x.eq v = true) :
    x.isNull = false := by
  cases x with
  | null =>
      cases v with
      | null => exact present
      | _ => exact absurd same Bool.false_ne_true
  | _ => rfl

end Value

/-! ## Rows that clash -/

/-- A row holds the value of another one, not NULL, in a UNIQUE column. The alias
column is left out: it is the key. -/
def Clash (table : Table) (old new : List Value) : Prop :=
  ∃ ci col x v, table.columns[ci]? = some col ∧ col.unique = true ∧ some ci ≠ table.rowidAlias ∧
    old[ci]? = some x ∧ new[ci]? = some v ∧ v.isNull = false ∧ x.eq v = true

theorem Clash.symm {table : Table} {old new : List Value} (clash : Clash table old new) :
    Clash table new old := by
  obtain ⟨ci, col, x, v, column, unique, other, here, there, present, same⟩ := clash
  exact ⟨ci, col, v, x, column, unique, other, there, here, Value.not_isNull_of_eq present same,
    Value.eq_symm same⟩

/-- What clashes with a row as it is read back clashes with the row. -/
theorem Clash.of_stored {table : Table} {old new : List Value}
    (clash : Clash table old ((withAliasNulled table.rowidAlias new).map Value.stored)) :
    Clash table old new := by
  obtain ⟨ci, col, x, v, column, unique, other, here, there, present, same⟩ := clash
  rw [List.getElem?_map] at there
  obtain ⟨w, found, rfl⟩ := Option.map_eq_some_iff.mp there
  have kept : new[ci]? = some w := by
    rw [← found]
    cases aliased : table.rowidAlias with
    | none => rfl
    | some a =>
        rw [aliased] at other
        have apart : a ≠ ci := fun equal => other (by rw [equal])
        exact (List.getElem?_set_ne apart).symm
  rw [Value.isNull_stored] at present
  exact ⟨ci, col, x, w, column, unique, other, here, kept, present, Value.eq_of_eq_stored same⟩

/-- No two rows clash. -/
def NoClashes (table : Table) (entries : Rows) : Prop :=
  ∀ first ∈ entries, ∀ second ∈ entries, first.1 ≠ second.1 → ∀ row row',
    Row.decode first.1 first.2.val = .ok row → Row.decode second.1 second.2.val = .ok row' →
      ¬ Clash table row.values row'.values

/-- Rows of which one is new stay free of clashes when the new one clashes with none of
the others. -/
theorem NoClashes.put {table : Table} {entries : Rows} {rowid : Int64} {values : List Value}
    {record : Record} (free : NoClashes table entries)
    (encoded : asRecord ⟨rowid, withAliasNulled table.rowidAlias values⟩ = .ok record)
    (others : ∀ entry ∈ entries, entry.1 ≠ rowid → ∀ row,
      Row.decode entry.1 entry.2.val = .ok row → ¬ Clash table row.values values) :
    NoClashes table (Entries.put rowid record entries) := by
  have new : ∀ row, Row.decode rowid record.val = .ok row → ∀ old,
      Clash table old row.values → Clash table old values := by
    intro row decoded old clash
    rw [decode_asRecord encoded] at decoded
    obtain rfl := Except.ok.inj decoded
    exact clash.of_stored
  intro first member second member' apart row row' decoded decoded' clash
  rcases Entries.mem_put.mp member with rfl | ⟨inside, other⟩
  · rcases Entries.mem_put.mp member' with rfl | ⟨inside', other'⟩
    · exact apart rfl
    · exact others second inside' other' row' decoded' (new row decoded _ clash.symm)
  · rcases Entries.mem_put.mp member' with rfl | ⟨inside', other'⟩
    · exact others first inside other row decoded (new row' decoded' _ clash)
    · exact free first inside second inside' apart row row' decoded decoded' clash

theorem NoClashes.drop {table : Table} {entries : Rows} (rowid : Int64)
    (free : NoClashes table entries) : NoClashes table (Entries.drop rowid entries) := by
  intro first member second member'
  exact free first (Entries.mem_drop.mp member).1 second (Entries.mem_drop.mp member').1

theorem NoClashes.cleared {table : Table} {entries : Rows} (conflict : Option (Nat × Int64))
    (free : NoClashes table entries) : NoClashes table (Sql.cleared conflict entries) := by
  cases conflict with
  | none => exact free
  | some place => exact free.drop place.2

/-! ## The search for a clash -/

theorem mem_uniqueFrom {table : Table} {values : List Value} {i : Nat} {cols : List Column}
    {unique : List Nat} (read : uniqueFrom table values i cols = .ok unique) {n : Nat} {col : Column}
    (column : cols[n]? = some col) (isUnique : col.unique = true)
    (other : some (i + n) ≠ table.rowidAlias) {v : Value} (there : values[i + n]? = some v)
    (present : v.isNull = false) : i + n ∈ unique := by
  induction cols generalizing i n unique with
  | nil => simp at column
  | cons first cols ih =>
      have later {unique : List Nat} (read : uniqueFrom table values (i + 1) cols = .ok unique)
          {m : Nat} (column : cols[m]? = some col) (same : n = m + 1) : i + n ∈ unique := by
        subst same
        have place : i + (m + 1) = i + 1 + m := by omega
        rw [place] at other there ⊢
        exact ih read column other there
      rw [uniqueFrom] at read
      split at read
      · next checked =>
        obtain ⟨v', found, read⟩ := Outcome.bind_eq_ok.mp read
        obtain ⟨rest, read, made⟩ := Outcome.bind_eq_ok.mp read
        rw [Outcome.pure_eq_ok] at made
        cases n with
        | zero =>
            rw [Nat.add_zero] at there ⊢
            rw [Outcome.orPanic_eq_ok, there, Option.some.injEq] at found
            rw [← found, present] at made
            simp [← made]
        | succ m =>
            have inRest := later read column rfl
            rw [← made]
            split
            · exact inRest
            · exact List.mem_cons_of_mem _ inRest
      · next skipped =>
        cases n with
        | zero =>
            obtain rfl : first = col := by simpa using column
            exact absurd ⟨isUnique, other⟩ skipped
        | succ m => exact later read column rfl

/-- A search that found nothing has looked at every row. -/
theorem noConflict_of_none {unique : List Nat} {values : List Value} {exclude : Option Int64}
    {entries : Rows}
    (searched : forIn entries none (fun entry found =>
      visitConflict unique values exclude entry.1 entry.2.val found) = .ok none) :
    ∀ entry ∈ entries, some entry.1 ≠ exclude → ∀ row,
      Row.decode entry.1 entry.2.val = .ok row → ∀ ci ∈ unique, ∀ x v,
        row.values[ci]? = some x → values[ci]? = some v → x.eq v = false := by
  induction entries with
  | nil =>
      intro entry member
      cases member
  | cons first entries ih =>
      rw [List.forIn_cons] at searched
      obtain ⟨visited, visit, searched⟩ := Outcome.bind_eq_ok.mp searched
      rw [visitConflict] at visit
      split at visit
      · next excluded =>
        obtain rfl := Except.ok.inj visit
        intro entry member kept
        rcases List.mem_cons.mp member with rfl | later
        · exact absurd excluded kept
        · exact ih searched entry later kept
      · obtain ⟨row, decoded, visit⟩ := Outcome.bind_eq_ok.mp visit
        split at visit
        · obtain rfl := Outcome.pure_eq_ok.mp visit
          simp at searched
        · next nothing =>
          obtain rfl := Outcome.pure_eq_ok.mp visit
          intro entry member kept row' decoded' ci inUnique x v here there
          rcases List.mem_cons.mp member with rfl | later
          · rw [decoded] at decoded'
            obtain rfl := Except.ok.inj decoded'
            have apart := List.find?_eq_none.mp nothing ci inUnique
            simpa only [sameAt, here, there, Bool.not_eq_true] using apart
          · exact ih searched entry later kept row' decoded' ci inUnique x v here there

/-- No row clashes with values for which no conflict is found. -/
theorem noClash_of_none {table : Table} {values : List Value} {exclude : Option Int64}
    {entries : Rows} (searched : firstConflict table values exclude entries = .ok none) :
    ∀ entry ∈ entries, some entry.1 ≠ exclude → ∀ row,
      Row.decode entry.1 entry.2.val = .ok row → ¬ Clash table row.values values := by
  intro entry member kept row decoded clash
  obtain ⟨ci, col, x, v, column, isUnique, other, here, there, present, same⟩ := clash
  obtain ⟨unique, read, searched⟩ := Outcome.bind_eq_ok.mp searched
  have inUnique : 0 + ci ∈ unique :=
    mem_uniqueFrom read column isUnique (by rwa [Nat.zero_add]) (by rwa [Nat.zero_add]) present
  rw [Nat.zero_add] at inUnique
  split at searched
  · next none => simp [none] at inUnique
  · have apart := noConflict_of_none searched entry member kept row decoded ci inUnique x v here there
    rw [same] at apart
    cases apart

/-! ## Statements that leave no clash -/

section

variable {Query σ : Type} [PageSink σ] [MapSink σ]

section

variable (builtins : Builtins) (fuel : Nat) (table : Table) (params : List Value)

/-- Of the rows that clash with a tuple of an INSERT OR REPLACE, there are only the first
one and the one with the tuple's row id. -/
def TupleClears (plan : InsertPlan Query) (clock : Nat → Int) (rowExprs : List (Expr Query))
    (store : Audited σ) : Prop :=
  plan.orReplace = true → ∀ entries pages,
    BTree.Tree (view store) table.rootPage entries pages → ∀ values rowid read ci first,
      newValues builtins table params plan clock rowExprs = .ok values →
      chooseRowid fuel table values store = .ok rowid read →
      firstConflict table (withAlias table rowid values) none entries = .ok (some (ci, first)) →
      ∀ entry ∈ entries, entry.1 ≠ first → entry.1 ≠ rowid → ∀ row,
        Row.decode entry.1 entry.2.val = .ok row →
          ¬ Clash table row.values (withAlias table rowid values)

/-- This holds of each tuple when it is its turn. -/
def InsertClears (plan : InsertPlan Query) (clock : Clock) :
    Nat → List (List (Expr Query)) → Audited σ → Prop
  | _, [], _ => True
  | k, rowExprs :: rows, store =>
      TupleClears builtins fuel table params plan (clock k) rowExprs store ∧
      ∀ rowid after, insertRow builtins fuel table params plan (clock k) rowExprs store =
        .ok rowid after → InsertClears plan clock (k + 1) rows after

/-- A statement that leaves no clash: any but an INSERT OR REPLACE with a tuple that
clashes with more rows than it deletes. -/
def Statement.Clears (statement : Statement Query) (store : Audited σ) : Prop :=
  match statement.plan with
  | .insert plan => InsertClears builtins statement.fuel table statement.params plan statement.clock
      0 plan.rows store
  | .update _ | .delete _ => True

/-- Statements each of which leaves no clash when it is its turn. -/
def RunClears : List (Statement Query) → Audited σ → Prop
  | [], _ => True
  | statement :: rest, store =>
      statement.Clears builtins table store ∧
      ∀ count after, statement.run builtins table store = .ok count after → RunClears rest after

end

variable {builtins : Builtins} {fuel : Nat} {table : Table} {params : List Value}
  {store after : Audited σ} {entries : Rows} {pages : List PageId}

/-- The tree of the table holds rows that do not clash. -/
def HoldsUnique (table : Table) (store : Audited σ) : Prop :=
  ∃ entries pages, BTree.Tree (view store) table.rootPage entries pages ∧ NoClashes table entries

/-- A stored tuple clashes with none of the rows that stay. -/
theorem insertRow_unique {plan : InsertPlan Query} {clock : Nat → Int}
    {rowExprs : List (Expr Query)} {rowid : Int64} (free : HoldsUnique table store)
    (clears : TupleClears builtins fuel table params plan clock rowExprs store)
    (run : insertRow builtins fuel table params plan clock rowExprs store = .ok rowid after)
    (fit : after.allFit = true) : HoldsUnique table after := by
  obtain ⟨entries, pages, tree, free⟩ := free
  obtain ⟨values, conflict, record, stores, ⟨read, chosen⟩, pages', tree', _⟩ :=
    insertRow_ok tree run fit
  refine ⟨_, pages', tree', (free.cleared conflict).put stores.encoded ?_⟩
  cases found : conflict with
  | none =>
      intro entry member _ row decoded
      exact noClash_of_none (found ▸ stores.searched) entry member (by simp) row decoded
  | some place =>
      obtain ⟨ci, first⟩ := place
      intro entry member other row decoded
      obtain ⟨inside, apart⟩ := Entries.mem_drop.mp member
      exact clears (stores.replaces (by rw [found]; rfl)) entries pages tree values rowid read ci first
        stores.filled chosen (found ▸ stores.searched) entry inside apart other row decoded

theorem insertRows_unique {plan : InsertPlan Query} {clock : Clock} {k : Nat}
    {rows : List (List (Expr Query))} {result answer : InsertResult}
    (free : HoldsUnique table store)
    (clears : InsertClears builtins fuel table params plan clock k rows store)
    (run : insertRows builtins fuel table params plan clock k rows result store = .ok answer after)
    (fit : after.allFit = true) : HoldsUnique table after := by
  induction rows generalizing k result store with
  | nil =>
      obtain ⟨_, rfl⟩ := Exec.pure_eq_ok.mp run
      exact free
  | cons rowExprs rows ih =>
      obtain ⟨rowid, between, first, rest⟩ := Exec.bind_eq_ok.mp run
      have fitBetween := tracked_insertRows _ _ _ _ _ rest fit
      exact ih (insertRow_unique free clears.1 first fitBetween) (clears.2 rowid between first) rest

/-- A changed row clashes with none of the others. -/
theorem updateRow_unique {plan : UpdatePlan Query} {rowid : Int64} {old : List Value}
    (free : HoldsUnique table store)
    (run : updateRow builtins fuel table params plan rowid old store = .ok () after)
    (fit : after.allFit = true) : HoldsUnique table after := by
  obtain ⟨entries, pages, tree, free⟩ := free
  obtain ⟨values, newRowid, record, changes, pages', tree', _⟩ := updateRow_ok tree run fit
  refine ⟨_, pages', tree', (free.drop rowid).put changes.encoded ?_⟩
  intro entry member _ row decoded
  obtain ⟨inside, apart⟩ := Entries.mem_drop.mp member
  exact noClash_of_none changes.searched entry inside (by simpa using apart) row decoded

theorem updateRows_unique {plan : UpdatePlan Query} {rows : List (Int64 × List Value)}
    {count answer : Nat} (free : HoldsUnique table store)
    (run : updateRows builtins fuel table params plan rows count store = .ok answer after)
    (fit : after.allFit = true) : HoldsUnique table after := by
  induction rows generalizing count store with
  | nil =>
      obtain ⟨_, rfl⟩ := Exec.pure_eq_ok.mp run
      exact free
  | cons row rows ih =>
      obtain ⟨_, between, first, rest⟩ := Exec.bind_eq_ok.mp run
      exact ih (updateRow_unique free first (tracked_updateRows _ _ _ rest fit)) rest

theorem deleteRows_unique {rows : List (Int64 × List Value)} {count answer : Nat}
    (free : HoldsUnique table store)
    (run : deleteRows fuel table rows count store = .ok answer after)
    (fit : after.allFit = true) : HoldsUnique table after := by
  induction rows generalizing count store with
  | nil =>
      obtain ⟨_, rfl⟩ := Exec.pure_eq_ok.mp run
      exact free
  | cons row rows ih =>
      obtain ⟨found, between, first, rest⟩ := Exec.bind_eq_ok.mp run
      have fitBetween : between.allFit = true := by
        split at rest
        · exact tracked_deleteRows _ _ rest fit
        · exact tracked_deleteRows _ _ rest fit
      obtain ⟨entries, pages, tree, free⟩ := free
      obtain ⟨_, pages', tree', _⟩ := deleteRow_ok tree first fitBetween
      have free' : HoldsUnique table between := ⟨_, pages', tree', free.drop row.1⟩
      split at rest
      · exact ih free' rest
      · exact ih free' rest

/-- Collecting the rows of a condition changes nothing. -/
theorem HoldsUnique.scanned {predicate : Option (Expr Query)} {rows : List (Int64 × List Value)}
    (free : HoldsUnique table store)
    (run : onPages (scanMatching builtins fuel table params predicate) store = .ok rows after) :
    HoldsUnique table after := by
  obtain ⟨entries, pages, tree, free⟩ := free
  obtain ⟨_, same⟩ := (scanned_observes tree predicate).of_ok run
  rw [← (sight_eq same).1] at tree
  exact ⟨entries, pages, tree, free⟩

theorem Statement.unique {statement : Statement Query} {count : Nat}
    (free : HoldsUnique table store) (clears : statement.Clears builtins table store)
    (run : statement.run builtins table store = .ok count after) (fit : after.allFit = true) :
    HoldsUnique table after := by
  obtain ⟨plan, params, clock, fuel⟩ := statement
  cases plan with
  | insert plan =>
      obtain ⟨result, between, inserted, rest⟩ := Exec.bind_eq_ok.mp run
      obtain ⟨_, rfl⟩ := Exec.pure_eq_ok.mp rest
      exact insertRows_unique free clears inserted fit
  | update plan =>
      obtain ⟨rows, between, scanned, rest⟩ := Exec.bind_eq_ok.mp run
      exact updateRows_unique (free.scanned scanned) rest fit
  | delete plan =>
      obtain ⟨rows, between, scanned, rest⟩ := Exec.bind_eq_ok.mp run
      exact deleteRows_unique (free.scanned scanned) rest fit

/-- **UNIQUE columns.** From an empty table, statements that all returned and of which
none is an INSERT OR REPLACE with a tuple that clashes with more rows than it deletes
leave a table without rows that clash. -/
theorem unique_of_clears {statements : List (Statement Query)}
    (empty : BTree.Tree (view store) table.rootPage [] pages)
    (clears : RunClears builtins table statements store)
    (run : runAll builtins table statements store = .ok () after) (fit : after.allFit = true) :
    HoldsUnique table after := by
  have free : HoldsUnique table store := by
    refine ⟨[], pages, empty, ?_⟩
    intro first member
    cases member
  clear empty
  induction statements generalizing store with
  | nil =>
      obtain ⟨_, rfl⟩ := Exec.pure_eq_ok.mp run
      exact free
  | cons statement rest ih =>
      obtain ⟨count, between, first, later⟩ := Exec.bind_eq_ok.mp run
      have fitBetween := tracked_runAll _ later fit
      exact ih (clears.2 count between first) later (statement.unique free clears.1 first fitBetween)

end

/-! ## Two UNIQUE columns -/

/-- `CREATE TABLE t (a TEXT UNIQUE, b TEXT UNIQUE)` -/
def uniquePair : Table where
  name := ['t']
  columns := [⟨['a'], "TEXT".toList, .text, false, false, true, none⟩,
    ⟨['b'], "TEXT".toList, .text, false, false, true, none⟩]
  rootPage := 2
  rowidAlias := none
  sql := "CREATE TABLE t (a TEXT UNIQUE, b TEXT UNIQUE)".toList
  aliasInRange := by simp

/-- `INSERT INTO t VALUES (a, b)`, or `INSERT OR REPLACE` -/
def storePair (orReplace : Bool) (a b : Char) : Statement Empty where
  plan := .insert ⟨['t'], [0, 1], [[.literal (.text [a]), .literal (.text [b])]], orReplace⟩
  params := []
  clock _ _ := 0
  fuel := 3

/-- Statements on a new table in memory. -/
def onNewPair (statements : List (Statement Empty)) : Exec (Audited MemStore) SqlError Unit := do
  let _ ← Exec.mapError .storage BTree.create
  runAll .bare uniquePair statements

/-- Two rows, and one that replaces a row of which it has a value. -/
def threePairs : List (Statement Empty) :=
  [storePair false 'x' 'p', storePair false 'y' 'q', storePair true 'x' 'q']

/-- They return; the row of which it has the other value is still there. -/
theorem threePairs_return : Exec.leaves (onNewPair threePairs) ⟨MemStore.new, true⟩ (fun _ after =>
    after.allFit && Exec.leaves (BTree.get 3 2 2) after.sink (fun row _ =>
        row == some [3, 15, 15, 121, 113]) &&
      Exec.leaves (BTree.get 3 2 3) after.sink fun row _ => row == some [3, 15, 15, 120, 113]) =
    true := by
  decide +kernel

/-- What a lookup within its budget gave is in the rows. -/
theorem mem_of_get {σ : Type} [PageSource σ] [MapSource σ] {store after : σ} {root : PageId}
    {entries : Rows} {pages : List PageId} (tree : BTree.Tree (view store) root entries pages)
    {fuel : Nat} {rowid : Int64} {bytes : Bytes}
    (run : BTree.get fuel root rowid store = .ok (some bytes) after) :
    ∃ record : Record, record.val = bytes ∧ (rowid, record) ∈ entries := by
  obtain ⟨found, _⟩ := (BTree.get_observes tree rowid fuel).of_ok run
  obtain ⟨record, held, same⟩ := Option.map_eq_some_iff.mp (Except.ok.inj found)
  exact ⟨record, same, (Entries.lookup_eq_some_iff tree.ascending).mp held⟩

/-- The row `('x', 'q')` replaces the row `('x', 'p')`, and `('y', 'q')` stays. -/
theorem replace_leaves_clash : ∃ after, onNewPair threePairs ⟨MemStore.new, true⟩ = .ok () after ∧
    after.allFit = true ∧ ¬ HoldsUnique uniquePair after := by
  obtain ⟨_, after, run, holds⟩ := Exec.exists_of_leaves threePairs_return
  obtain ⟨holds, third⟩ := Bool.and_eq_true_iff.mp holds
  obtain ⟨fit, second⟩ := Bool.and_eq_true_iff.mp holds
  obtain ⟨row, _, read, same⟩ := Exec.exists_of_leaves second
  obtain ⟨row', _, read', same'⟩ := Exec.exists_of_leaves third
  obtain rfl := beq_iff_eq.mp same
  obtain rfl := beq_iff_eq.mp same'
  refine ⟨after, run, fit, ?_⟩
  rintro ⟨entries, pages, tree, free⟩
  have tree' : BTree.Tree (view after.sink) 2 entries pages := tree
  obtain ⟨old, oldBytes, oldHeld⟩ := mem_of_get tree' read
  obtain ⟨new, newBytes, newHeld⟩ := mem_of_get tree' read'
  have apart : (2 : Int64) ≠ 3 := by decide
  have decoded : Row.decode 2 [3, 15, 15, 121, 113] = .ok ⟨2, [.text ['y'], .text ['q']]⟩ := by
    decide +kernel
  have decoded' : Row.decode 3 [3, 15, 15, 120, 113] = .ok ⟨3, [.text ['x'], .text ['q']]⟩ := by
    decide +kernel
  refine free (2, old) oldHeld (3, new) newHeld apart _ _ (oldBytes ▸ decoded) (newBytes ▸ decoded') ?_
  exact ⟨1, _, .text ['q'], .text ['q'], rfl, rfl, by decide, rfl, rfl, rfl, by decide⟩

/-- A row that is changed. -/
def twoPairs : List (Statement Empty) :=
  [storePair false 'x' 'p',
    ⟨.update ⟨['t'], [(0, .literal (.text ['y']))], none⟩, [], fun _ _ => 0, 3⟩]

theorem twoPairs_return : Exec.leaves (onNewPair twoPairs) ⟨MemStore.new, true⟩
    (fun _ after => after.allFit) = true := by
  decide +kernel

/-- The first page that is given out. -/
theorem newPair_root : Exec.leaves BTree.create (⟨MemStore.new, true⟩ : Audited MemStore)
    (fun root _ => root == 2) = true := by
  decide +kernel

theorem unique_of_clears_twoPairs : ∃ after, onNewPair twoPairs ⟨MemStore.new, true⟩ = .ok () after ∧
    HoldsUnique uniquePair after := by
  obtain ⟨_, after, run, fit⟩ := Exec.exists_of_leaves twoPairs_return
  refine ⟨after, run, ?_⟩
  obtain ⟨root, created, creation, run⟩ := Exec.bind_eq_ok.mp run
  rw [Exec.mapError_eq_ok] at creation
  obtain ⟨root', created', creation', second⟩ := Exec.exists_of_leaves newPair_root
  obtain ⟨rfl, rfl⟩ := EStateM.Result.ok.inj (creation.symm.trans creation')
  obtain rfl := beq_iff_eq.mp second
  have empty := BTree.create_ok MemStore.new_inUse creation (tracked_runAll _ run fit)
  have plain : RunClears .bare uniquePair twoPairs created :=
    ⟨⟨fun replaces => absurd replaces (by decide), fun _ _ _ => trivial⟩, fun _ _ _ =>
      ⟨trivial, fun _ _ _ => trivial⟩⟩
  exact unique_of_clears empty plain run fit

end Squrust.Sql
