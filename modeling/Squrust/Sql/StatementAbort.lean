import Squrust.Sql.Uniqueness

/-!
# A statement that fails in a transaction

A statement in a transaction writes its rows one after the other into the pages of
the transaction. When a check or an expression fails at one of them, the rows before
it stay: what the transaction then reads is what the statement without the failing
row and those behind it leaves (`failed_reads_firstRows`). So the tables are as they
were exactly when the rows before the failing one change nothing
(`abort_keeps_iff_firstRows_keep`): for one, when it is the first row that fails.
-/

set_option autoImplicit false

namespace Squrust.Sql

open Squrust.Foundation

open Squrust.Core

open Exec (Observes)

variable {Query σ : Type} [PageSink σ] {builtins : Builtins} {fuel : Nat} {table : Table}
  {params : List Value}

/-! ## Statements in a transaction -/

/-- A statement in a transaction: it is planned, which does not touch the pages of the
transaction, and then run on its table. -/
def executeOn (builtins : Builtins) (planned : Outcome SqlError (Table × Statement Query)) :
    Exec (Audited σ) SqlError Nat := do
  let (table, statement) ← Exec.lift planned
  statement.run builtins table

/-- The first `n` rows of a statement: tuples, or rows its condition holds for. With no
row there is nothing to do. -/
def Statement.firstRows (builtins : Builtins) (table : Table) (statement : Statement Query) :
    Nat → Exec (Audited σ) SqlError Unit
  | 0 => return ()
  | n + 1 =>
      match statement.plan with
      | .insert plan => do
          let _ ← insertRows builtins statement.fuel table statement.params plan statement.clock 0
            (plan.rows.take (n + 1)) ⟨0, 0⟩
      | .update plan => do
          let matching ← onPages (scanMatching builtins statement.fuel table statement.params
            plan.predicate)
          let _ ← updateRows builtins statement.fuel table statement.params plan
            (matching.take (n + 1)) 0
      | .delete plan => do
          let matching ← onPages (scanMatching builtins statement.fuel table statement.params
            plan.predicate)
          let _ ← deleteRows statement.fuel table (matching.take (n + 1)) 0

/-! ## More rows -/

section

variable {store after : Audited σ}

theorem insertRows_append {plan : InsertPlan Query} {clock : Clock} {k : Nat}
    {front back : List (List (Expr Query))} {result : InsertResult} :
    (insertRows builtins fuel table params plan clock k (front ++ back) result :
      Exec (Audited σ) SqlError InsertResult) =
    insertRows builtins fuel table params plan clock k front result >>= fun result =>
      insertRows builtins fuel table params plan clock (k + front.length) back result := by
  induction front generalizing k result with
  | nil => rfl
  | cons rowExprs front ih =>
      have next : k + (rowExprs :: front).length = k + 1 + front.length := by
        rw [List.length_cons]
        omega
      simp only [List.cons_append, insertRows, ih, bind_assoc, next]

theorem updateRows_append {plan : UpdatePlan Query} {front back : List (Int64 × List Value)}
    {count : Nat} :
    (updateRows builtins fuel table params plan (front ++ back) count :
      Exec (Audited σ) SqlError Nat) =
    updateRows builtins fuel table params plan front count >>=
      updateRows builtins fuel table params plan back := by
  induction front generalizing count with
  | nil => rfl
  | cons row front ih => simp only [List.cons_append, updateRows, ih, bind_assoc]

theorem deleteRows_append {front back : List (Int64 × List Value)} {count : Nat} :
    (deleteRows fuel table (front ++ back) count : Exec (Audited σ) SqlError Nat) =
    deleteRows fuel table front count >>= deleteRows fuel table back := by
  induction front generalizing count with
  | nil => rfl
  | cons row front ih =>
      simp only [List.cons_append, deleteRows, bind_assoc]
      congr 1
      funext found
      split
      · exact ih
      · exact ih

/-- A statement that failed by its `m`-th row fails the same with more rows. -/
theorem Statement.firstRows_failed {statement : Statement Query} {m n : Nat} {fault : Fault SqlError}
    (failed : statement.firstRows builtins table m store = .error fault after) (within : m ≤ n) :
    statement.firstRows builtins table n store = .error fault after := by
  obtain ⟨plan, params, clock, fuel⟩ := statement
  cases m with
  | zero => cases failed
  | succ m =>
    cases n with
    | zero => cases within
    | succ n =>
      have split {α : Type} (rows : List α) :
          rows.take (n + 1) = rows.take (m + 1) ++ (rows.take (n + 1)).drop (m + 1) := by
        have whole := List.take_append_drop (m + 1) (rows.take (n + 1))
        rw [List.take_take, Nat.min_eq_left within] at whole
        exact whole.symm
      cases plan with
      | insert plan =>
          rcases Exec.bind_eq_error.mp failed with failed | ⟨_, _, _, returned⟩
          · apply Exec.bind_of_error
            rw [split plan.rows, insertRows_append]
            exact Exec.bind_of_error failed
          · cases returned
      | update plan =>
          rcases Exec.bind_eq_error.mp failed with failed | ⟨matching, read, scanned, failed⟩
          · exact Exec.bind_of_error failed
          · rcases Exec.bind_eq_error.mp failed with failed | ⟨_, _, _, returned⟩
            · apply (Exec.bind_of_ok scanned).trans
              apply Exec.bind_of_error
              rw [split matching, updateRows_append]
              exact Exec.bind_of_error failed
            · cases returned
      | delete plan =>
          rcases Exec.bind_eq_error.mp failed with failed | ⟨matching, read, scanned, failed⟩
          · exact Exec.bind_of_error failed
          · rcases Exec.bind_eq_error.mp failed with failed | ⟨_, _, _, returned⟩
            · apply (Exec.bind_of_ok scanned).trans
              apply Exec.bind_of_error
              rw [split matching, deleteRows_append]
              exact Exec.bind_of_error failed
            · cases returned

end

/-! ## Where a statement can fail -/

/-- The only errors are those of the storage. -/
def OnlyStorage {α : Type} (code : Exec (Audited σ) SqlError α) : Prop :=
  ∀ ⦃store after : Audited σ⦄ ⦃e : SqlError⦄, code store = .error (.error e) after →
    ∃ error, e = .storage error

namespace OnlyStorage

variable {α β : Type}

theorem pure (value : α) : OnlyStorage (return value : Exec (Audited σ) SqlError α) := by
  intro store after e failed
  cases failed

theorem mapError (code : Exec (Audited σ) StorageError α) :
    OnlyStorage (Exec.mapError SqlError.storage code) := by
  intro store after e failed
  obtain ⟨fault, _, same⟩ := Exec.mapError_eq_error.mp failed
  cases fault with
  | error error => exact ⟨error, (Fault.error.inj same).symm⟩
  | panic reason => cases same
  | outOfFuel => cases same

theorem bind {first : Exec (Audited σ) SqlError α} {next : α → Exec (Audited σ) SqlError β}
    (earlier : OnlyStorage first) (later : ∀ value, OnlyStorage (next value)) :
    OnlyStorage (first >>= next) := by
  intro store after e failed
  rcases Exec.bind_eq_error.mp failed with here | ⟨value, between, _, rest⟩
  · exact earlier here
  · exact later value rest

/-- A read of the pages. -/
theorem onPages (code : Exec σ StorageError α) :
    OnlyStorage (Sql.onPages (Exec.mapError SqlError.storage code)) := by
  intro store after e failed
  have inside : ∃ sink, Exec.mapError SqlError.storage code store.sink = .error (.error e) sink := by
    unfold Sql.onPages Exec.onPart at failed
    split at failed
    · cases failed
    · next fault sink run =>
      obtain ⟨rfl, _⟩ := EStateM.Result.error.inj failed
      exact ⟨sink, run⟩
  obtain ⟨sink, run⟩ := inside
  obtain ⟨fault, _, same⟩ := Exec.mapError_eq_error.mp run
  cases fault with
  | error error => exact ⟨error, (Fault.error.inj same).symm⟩
  | panic reason => cases same
  | outOfFuel => cases same

theorem deleteRow (rowid : Int64) :
    OnlyStorage (Sql.deleteRow fuel table rowid : Exec (Audited σ) SqlError Bool) :=
  .mapError _

theorem putRow (rowid : Int64) (values : List Value) :
    OnlyStorage (Sql.putRow fuel table rowid values : Exec (Audited σ) SqlError Unit) := by
  apply OnlyStorage.bind
  · intro store after e failed
    unfold asRecord at failed
    split at failed
    · cases failed
    · cases failed
  · intro record
    exact .mapError _

/-- Replacing never fails for another row. -/
theorem clearConflict (conflict : Option (Nat × Int64)) :
    OnlyStorage (Sql.clearConflict fuel table true conflict : Exec (Audited σ) SqlError Unit) := by
  cases conflict with
  | none => exact .pure _
  | some place => exact .bind (.deleteRow _) fun _ => .pure _

theorem clearRowid (rowid : Int64) :
    OnlyStorage (Sql.clearRowid fuel table true rowid : Exec (Audited σ) SqlError Unit) := by
  apply OnlyStorage.bind (.onPages _)
  intro present
  split
  · exact .bind (.deleteRow _) fun _ => .pure _
  · exact .pure _

/-- Nor does storing a row that replaces others. -/
theorem storeNew (conflict : Option (Nat × Int64)) (rowid : Int64) (values : List Value) :
    OnlyStorage (Sql.storeNew fuel table true conflict rowid values :
      Exec (Audited σ) SqlError Unit) :=
  .bind (.clearConflict _) fun _ => .bind (.clearRowid _) fun _ => .putRow _ _

theorem leavePlace (rowid newRowid : Int64) :
    OnlyStorage (Sql.leavePlace fuel table rowid newRowid : Exec (Audited σ) SqlError Unit) := by
  rw [Sql.leavePlace]
  split
  · exact .bind (.deleteRow _) fun _ => .pure _
  · exact .pure _

theorem deleteRows (rows : List (Int64 × List Value)) (count : Nat) :
    OnlyStorage (Sql.deleteRows fuel table rows count : Exec (Audited σ) SqlError Nat) := by
  induction rows generalizing count with
  | nil => exact .pure _
  | cons row rows ih =>
      apply OnlyStorage.bind (.deleteRow _)
      intro found
      split
      · exact ih _
      · exact ih _

end OnlyStorage

section

variable [MapSink σ] {store after : Audited σ} {entries : Rows} {pages : List PageId} {e : SqlError}

/-- Storing a row that fails for another row has written nothing. -/
theorem storeNew_error {orReplace : Bool} {conflict : Option (Nat × Int64)} {rowid : Int64}
    {values : List Value} (tree : BTree.Tree (view store) table.rootPage entries pages)
    (failed : storeNew fuel table orReplace conflict rowid values store = .error (.error e) after)
    (check : ∀ error, e ≠ .storage error) : sight after = sight store := by
  cases orReplace with
  | true =>
      obtain ⟨error, same⟩ := OnlyStorage.storeNew _ _ _ failed
      exact absurd same (check error)
  | false =>
      have clearing : ∃ outcome, Observes sight (clearConflict fuel table false conflict) store
          outcome := by
        cases conflict with
        | none => exact ⟨_, .pure ()⟩
        | some place => exact ⟨_, .bind (.lift _) fun _ _ _ _ => .lift (Outcome.err _)⟩
      obtain ⟨_, clears⟩ := clearing
      rcases clears.failed_or failed with same | ⟨_, between, _, _, same₁, failed⟩
      · exact same
      rw [← (sight_eq same₁).1] at tree
      have clearing' : ∃ outcome, Observes sight (clearRowid fuel table false rowid) between
          outcome := by
        refine ⟨if (Entries.lookup rowid entries).isSome = true ∧ table.rowidAlias.isSome = true then
          Outcome.err (uniqueFailed table table.aliasName) else .ok (), ?_⟩
        apply (getRow_observes tree rowid).bind_ok
        intro read _
        rw [Option.isSome_map]
        by_cases present : (Entries.lookup rowid entries).isSome = true
        · by_cases aliased : table.rowidAlias.isSome = true
          · simp only [present, aliased, and_self, if_true, Bool.false_eq_true, if_false]
            exact .lift _
          · simp only [present, aliased, and_false, if_true, Bool.false_eq_true, if_false]
            exact .pure _
        · simp only [present, false_and, Bool.false_eq_true, if_false]
          exact .pure _
      obtain ⟨_, clears'⟩ := clearing'
      rcases clears'.failed_or failed with same | ⟨_, _, _, _, same₂, failed⟩
      · exact same.trans same₁
      · obtain ⟨error, same⟩ := OnlyStorage.putRow _ _ failed
        exact absurd same (check error)

/-- A tuple that fails, but not in the storage, has written nothing. -/
theorem insertRow_error {plan : InsertPlan Query} {clock : Nat → Int}
    {rowExprs : List (Expr Query)} (tree : BTree.Tree (view store) table.rootPage entries pages)
    (failed : insertRow builtins fuel table params plan clock rowExprs store = .error (.error e) after)
    (check : ∀ error, e ≠ .storage error) : sight after = sight store := by
  simp only [insertRow] at failed
  rcases Observes.failed_or (.lift _ : Observes sight _ store _) failed with
    same | ⟨values, _, filled, _, same₁, failed⟩
  · exact same
  rw [← (sight_eq same₁).1] at tree
  obtain ⟨_, chooses⟩ := @chooseRowid_observes σ fuel table _ _ _ entries pages tree values
  rcases chooses.failed_or failed with same | ⟨rowid, _, _, _, same₂, failed⟩
  · exact same.trans same₁
  rw [← (sight_eq same₂).1] at tree
  rcases Observes.failed_or (.lift _ : Observes sight _ _ _) failed with
    same | ⟨_, _, _, _, same₃, failed⟩
  · exact same.trans (same₂.trans same₁)
  rw [← (sight_eq same₃).1] at tree
  rcases (searched_observes tree (withAlias table rowid values) none).failed_or failed with
    same | ⟨conflict, _, _, _, same₄, failed⟩
  · exact same.trans (same₃.trans (same₂.trans same₁))
  rw [← (sight_eq same₄).1] at tree
  rcases Exec.bind_eq_error.mp failed with storing | ⟨_, _, _, returned⟩
  · exact (storeNew_error tree storing check).trans (same₄.trans (same₃.trans (same₂.trans same₁)))
  · cases returned

theorem checkMove_error {rowid newRowid : Int64}
    (tree : BTree.Tree (view store) table.rootPage entries pages)
    (failed : checkMove fuel table rowid newRowid store = .error (.error e) after) :
    sight after = sight store := by
  rw [checkMove] at failed
  split at failed
  · rcases (getRow_observes tree newRowid).failed_or failed with
      same | ⟨present, between, _, _, same, failed⟩
    · exact same
    · split at failed
      · obtain ⟨_, rfl⟩ := Exec.lift_eq_error.mp failed
        exact same
      · cases failed
  · cases failed

/-- So has a row of an UPDATE. -/
theorem updateRow_error {plan : UpdatePlan Query} {rowid : Int64} {old : List Value}
    (tree : BTree.Tree (view store) table.rootPage entries pages)
    (failed : updateRow builtins fuel table params plan rowid old store = .error (.error e) after)
    (check : ∀ error, e ≠ .storage error) : sight after = sight store := by
  simp only [updateRow] at failed
  rcases Observes.failed_or (.lift _ : Observes sight _ store _) failed with
    same | ⟨⟨values, newRowid⟩, _, _, _, same₁, failed⟩
  · exact same
  rw [← (sight_eq same₁).1] at tree
  rcases Observes.failed_or (.lift _ : Observes sight _ _ _) failed with
    same | ⟨_, _, _, _, same₂, failed⟩
  · exact same.trans same₁
  rw [← (sight_eq same₂).1] at tree
  rcases (searched_observes tree values (some rowid)).failed_or failed with
    same | ⟨conflict, _, _, _, same₃, failed⟩
  · exact same.trans (same₂.trans same₁)
  cases conflict with
  | some place =>
      rcases Observes.failed_or (.lift _ : Observes sight _ _ _) failed with
        same | ⟨_, _, _, _, same₄, failed⟩
      · exact same.trans (same₃.trans (same₂.trans same₁))
      · obtain ⟨_, rfl⟩ := Exec.lift_eq_error.mp failed
        exact same₄.trans (same₃.trans (same₂.trans same₁))
  | none =>
      rw [← (sight_eq same₃).1] at tree
      rcases Exec.bind_eq_error.mp failed with moving | ⟨_, _, _, failed⟩
      · exact (checkMove_error tree moving).trans (same₃.trans (same₂.trans same₁))
      · have writing : OnlyStorage (do
            leavePlace fuel table rowid newRowid
            putRow fuel table newRowid values : Exec (Audited σ) SqlError Unit) :=
          .bind (.leavePlace _ _) fun _ => .putRow _ _
        obtain ⟨error, same⟩ := writing failed
        exact absurd same (check error)

/-! ## The rows before the failing one -/

/-- Some of the rows went through, and the next failed without a trace. -/
theorem insertRows_error {plan : InsertPlan Query} {clock : Clock} {k : Nat}
    {rows : List (List (Expr Query))} {result : InsertResult}
    (tree : BTree.Tree (view store) table.rootPage entries pages)
    (failed : insertRows builtins fuel table params plan clock k rows result store =
      .error (.error e) after)
    (check : ∀ error, e ≠ .storage error) (fit : after.allFit = true) :
    ∃ n answer mid,
      insertRows builtins fuel table params plan clock k (rows.take n) result store =
        .ok answer mid ∧
      insertRows builtins fuel table params plan clock k (rows.take (n + 1)) result store =
        .error (.error e) after ∧ sight after = sight mid := by
  induction rows generalizing k result store entries pages with
  | nil => cases failed
  | cons rowExprs rows ih =>
      rcases Exec.bind_eq_error.mp failed with first | ⟨rowid, between, first, later⟩
      · exact ⟨0, result, store, rfl, Exec.bind_of_error first, insertRow_error tree first check⟩
      · have fitBetween := (tracked_insertRows _ _ _ _ _).error later fit
        obtain ⟨_, _, _, _, _, pages', tree', _⟩ := insertRow_ok tree first fitBetween
        obtain ⟨n, answer, mid, before, fails, same⟩ := ih tree' later
        exact ⟨n + 1, answer, mid, (Exec.bind_of_ok first).trans before,
          (Exec.bind_of_ok first).trans fails, same⟩

theorem updateRows_error {plan : UpdatePlan Query} {rows : List (Int64 × List Value)} {count : Nat}
    (tree : BTree.Tree (view store) table.rootPage entries pages)
    (failed : updateRows builtins fuel table params plan rows count store = .error (.error e) after)
    (check : ∀ error, e ≠ .storage error) (fit : after.allFit = true) :
    ∃ n answer mid,
      updateRows builtins fuel table params plan (rows.take n) count store = .ok answer mid ∧
      updateRows builtins fuel table params plan (rows.take (n + 1)) count store =
        .error (.error e) after ∧ sight after = sight mid := by
  induction rows generalizing count store entries pages with
  | nil => cases failed
  | cons row rows ih =>
      rcases Exec.bind_eq_error.mp failed with first | ⟨_, between, first, later⟩
      · exact ⟨0, count, store, rfl, Exec.bind_of_error first, updateRow_error tree first check⟩
      · have fitBetween := (tracked_updateRows _ _ _).error later fit
        obtain ⟨_, _, _, _, pages', tree', _⟩ := updateRow_ok tree first fitBetween
        obtain ⟨n, answer, mid, before, fails, same⟩ := ih tree' later
        exact ⟨n + 1, answer, mid, (Exec.bind_of_ok first).trans before,
          (Exec.bind_of_ok first).trans fails, same⟩

/-- Collecting the rows of a condition leaves no trace. -/
theorem scanned_error {predicate : Option (Expr Query)}
    (tree : BTree.Tree (view store) table.rootPage entries pages)
    (failed : onPages (scanMatching builtins fuel table params predicate) store =
      .error (.error e) after) : sight after = sight store :=
  ((scanned_observes tree predicate).of_error failed).2

/-- **Where a statement fails.** Some of its rows went through, and the next failed
without a trace. -/
theorem failed_reads_firstRows {statement : Statement Query}
    (tree : BTree.Tree (view store) table.rootPage entries pages)
    (failed : statement.run builtins table store = .error (.error e) after)
    (check : ∀ error, e ≠ .storage error) (fit : after.allFit = true) :
    ∃ n mid, statement.firstRows builtins table n store = .ok () mid ∧
      statement.firstRows builtins table (n + 1) store = .error (.error e) after ∧
      sight after = sight mid := by
  obtain ⟨plan, params, clock, fuel⟩ := statement
  cases plan with
  | insert plan =>
      rcases Exec.bind_eq_error.mp failed with failed | ⟨_, _, _, returned⟩
      · obtain ⟨n, answer, mid, before, fails, same⟩ := insertRows_error tree failed check fit
        refine ⟨n, ?_⟩
        cases n with
        | zero =>
            obtain ⟨_, rfl⟩ := Exec.pure_eq_ok.mp before
            exact ⟨store, rfl, Exec.bind_of_error fails, same⟩
        | succ n => exact ⟨mid, Exec.bind_of_ok before, Exec.bind_of_error fails, same⟩
      · cases returned
  | update plan =>
      rcases Exec.bind_eq_error.mp failed with failed | ⟨matching, read, scanned, failed⟩
      · exact ⟨0, store, rfl, Exec.bind_of_error failed, scanned_error tree failed⟩
      · have same₀ := ((scanned_observes tree plan.predicate).of_ok scanned).2
        rw [← (sight_eq same₀).1] at tree
        obtain ⟨n, answer, mid, before, fails, same⟩ := updateRows_error tree failed check fit
        refine ⟨n, ?_⟩
        have next : Statement.firstRows builtins table ⟨.update plan, params, clock, fuel⟩ (n + 1) store =
            .error (.error e) after := (Exec.bind_of_ok scanned).trans (Exec.bind_of_error fails)
        cases n with
        | zero =>
            obtain ⟨_, rfl⟩ := Exec.pure_eq_ok.mp before
            exact ⟨store, rfl, next, same.trans same₀⟩
        | succ n =>
            exact ⟨mid, (Exec.bind_of_ok scanned).trans (Exec.bind_of_ok before), next, same⟩
  | delete plan =>
      rcases Exec.bind_eq_error.mp failed with failed | ⟨matching, read, _, failed⟩
      · exact ⟨0, store, rfl, Exec.bind_of_error failed, scanned_error tree failed⟩
      · obtain ⟨error, same⟩ := OnlyStorage.deleteRows _ _ failed
        exact absurd same (check error)

/-! ## Tables that stay as they were -/

/-- What a table holds, another state holds too. -/
def SameTables (first second : Audited σ) : Prop :=
  ∀ root entries, (∃ pages, BTree.Tree (view first) root entries pages) →
    ∃ pages, BTree.Tree (view second) root entries pages

/-- The rows before the one a statement fails at leave every table as it is: none comes
before it, or each stores what is there. -/
def Statement.EarlierRowsIdle (builtins : Builtins) (table : Table) (statement : Statement Query)
    (store : Audited σ) : Prop :=
  ∃ n mid, statement.firstRows builtins table n store = .ok () mid ∧
    (∃ fault reached, statement.firstRows builtins table (n + 1) store = .error fault reached) ∧
    SameTables store mid

/-- Rows that were there are there after a tuple that replaces nothing. -/
theorem insertRow_keeps {plan : InsertPlan Query} {clock : Nat → Int}
    {rowExprs : List (Expr Query)} {rowid : Int64} (plain : plan.orReplace = false)
    (aliased : table.rowidAlias.isSome = true)
    (tree : BTree.Tree (view store) table.rootPage entries pages)
    (run : insertRow builtins fuel table params plan clock rowExprs store = .ok rowid after)
    (fit : after.allFit = true) :
    ∃ entries' pages', BTree.Tree (view after) table.rootPage entries' pages' ∧
      BTree.mapOf entries rowid = none ∧ (BTree.mapOf entries' rowid).isSome = true ∧
      ∀ other, (BTree.mapOf entries other).isSome = true →
        (BTree.mapOf entries' other).isSome = true := by
  obtain ⟨values, conflict, record, stores, _, pages', tree', _⟩ := insertRow_ok tree run fit
  have noConflict : conflict = none := by
    cases conflict with
    | none => rfl
    | some place => exact absurd (stores.replaces rfl) (by simp [plain])
  subst noConflict
  have put := @BTree.mapOf_put _ rowid record tree.ascending
  refine ⟨_, pages', tree', ?_, ?_, ?_⟩
  · rw [BTree.mapOf, stores.fresh plain aliased, Option.map_none]
  · rw [cleared, put]
    simp only [Call.update, if_true, Option.isSome_some]
  · intro other held
    rw [cleared, put]
    simp only [Call.update]
    split
    · rfl
    · exact held

theorem insertRows_keeps {plan : InsertPlan Query} {clock : Clock} {k : Nat}
    {rows : List (List (Expr Query))} {result answer : InsertResult} (plain : plan.orReplace = false)
    (aliased : table.rowidAlias.isSome = true)
    (tree : BTree.Tree (view store) table.rootPage entries pages)
    (run : insertRows builtins fuel table params plan clock k rows result store = .ok answer after)
    (fit : after.allFit = true) :
    ∃ entries' pages', BTree.Tree (view after) table.rootPage entries' pages' ∧
      ∀ other, (BTree.mapOf entries other).isSome = true →
        (BTree.mapOf entries' other).isSome = true := by
  induction rows generalizing k result store entries pages with
  | nil =>
      obtain ⟨_, rfl⟩ := Exec.pure_eq_ok.mp run
      exact ⟨entries, pages, tree, fun _ held => held⟩
  | cons rowExprs rows ih =>
      obtain ⟨rowid, between, first, later⟩ := Exec.bind_eq_ok.mp run
      obtain ⟨middle, pages', tree', _, _, keeps⟩ :=
        insertRow_keeps plain aliased tree first (tracked_insertRows _ _ _ _ _ later fit)
      obtain ⟨entries', pages'', tree'', keeps'⟩ := ih tree' later
      exact ⟨entries', pages'', tree'', fun other held => keeps' other (keeps other held)⟩

/-- Such an INSERT changes its table when it has a tuple. -/
theorem insertRows_adds {plan : InsertPlan Query} {clock : Clock} {k : Nat}
    {rowExprs : List (Expr Query)} {rows : List (List (Expr Query))} {result answer : InsertResult}
    (plain : plan.orReplace = false) (aliased : table.rowidAlias.isSome = true)
    (tree : BTree.Tree (view store) table.rootPage entries pages)
    (run : insertRows builtins fuel table params plan clock k (rowExprs :: rows) result store =
      .ok answer after)
    (fit : after.allFit = true) : ¬ SameTables store after := by
  intro same
  obtain ⟨rowid, between, first, later⟩ := Exec.bind_eq_ok.mp run
  obtain ⟨middle, pages', tree', absent, added, _⟩ :=
    insertRow_keeps plain aliased tree first (tracked_insertRows _ _ _ _ _ later fit)
  obtain ⟨entries', pages'', tree'', keeps⟩ := insertRows_keeps plain aliased tree' later fit
  obtain ⟨others, unchanged⟩ := same table.rootPage entries ⟨pages, tree⟩
  have present := keeps rowid added
  have unchanged' : BTree.Tree (view after.sink) table.rootPage entries others := unchanged
  rw [← unchanged'.mapOf_eq tree'', absent] at present
  cases present

/-- A failed INSERT that replaces nothing, into a table with an INTEGER PRIMARY KEY,
leaves the tables as they were only when its first tuple failed. -/
theorem plain_insert_keeps_iff_first_fails {plan : InsertPlan Query} {clock : Clock}
    (plain : plan.orReplace = false) (aliased : table.rowidAlias.isSome = true)
    (tree : BTree.Tree (view store) table.rootPage entries pages)
    (failed : Statement.run builtins table ⟨.insert plan, params, clock, fuel⟩ store =
      .error (.error e) after)
    (check : ∀ error, e ≠ .storage error) (fit : after.allFit = true) :
    SameTables store after ↔ ∃ rowExprs ∈ plan.rows.head?, ∃ fault reached,
      insertRow builtins fuel table params plan (clock 0) rowExprs store = .error fault reached := by
  obtain ⟨n, mid, before, fails, same⟩ := failed_reads_firstRows tree failed check fit
  obtain ⟨sameView, sameFit⟩ := sight_eq same
  cases rows : plan.rows with
  | nil =>
      simp only [Statement.firstRows, rows] at fails
      cases fails
  | cons rowExprs rest =>
      simp only [List.head?_cons, Option.mem_some_iff, exists_eq_left']
      cases n with
      | zero =>
          obtain ⟨_, rfl⟩ := Exec.pure_eq_ok.mp before
          constructor
          · intro _
            simp only [Statement.firstRows, rows, Nat.zero_add, List.take_succ_cons, List.take_zero]
              at fails
            rcases Exec.bind_eq_error.mp fails with fails | ⟨_, _, _, returned⟩
            · rcases Exec.bind_eq_error.mp fails with fails | ⟨_, _, _, returned⟩
              · exact ⟨_, _, fails⟩
              · cases returned
            · cases returned
          · intro _ root held present
            rw [sameView]
            exact present
      | succ n =>
          simp only [Statement.firstRows, rows, List.take_succ_cons] at before
          obtain ⟨answer, _, run, rest⟩ := Exec.bind_eq_ok.mp before
          obtain ⟨_, rfl⟩ := Exec.pure_eq_ok.mp rest
          constructor
          · intro keeps
            rw [SameTables, sameView] at keeps
            exact absurd keeps (insertRows_adds plain aliased tree run (sameFit ▸ fit))
          · rintro ⟨fault, reached, fails⟩
            obtain ⟨_, _, first, _⟩ := Exec.bind_eq_ok.mp run
            rw [fails] at first
            cases first

end

/-! ## A tuple after another -/

/-- `INSERT INTO t VALUES (a, 'p'), (b, 'q')` -/
def storeTwo (a b : Value) : Statement Empty where
  plan := .insert ⟨['t'], [0, 1],
    [[.literal a, .literal (.text ['p'])], [.literal b, .literal (.text ['q'])]], false⟩
  params := []
  clock _ _ := 0
  fuel := 3

/-- The statement on a new table, and what it then stops with. -/
def stopsOnNewPair (statement : Statement Empty) (message : Text)
    (test : Audited MemStore → Bool) : Bool :=
  Exec.leaves BTree.create (⟨MemStore.new, true⟩ : Audited MemStore) fun root store =>
    root == 2 && Exec.stops (executeOn .bare (.ok (uniquePair, statement))) store fun e after =>
      e == .constraint message && (after.allFit && test after)

theorem exists_of_stopsOnNewPair {statement : Statement Empty} {message : Text}
    {test : Audited MemStore → Bool} (holds : stopsOnNewPair statement message test = true) :
    ∃ (store after : Audited MemStore) (pages : List PageId), BTree.Tree (view store) uniquePair.rootPage [] pages ∧
      executeOn .bare (.ok (uniquePair, statement)) store =
        .error (.error (.constraint message)) after ∧ after.allFit = true ∧ test after = true := by
  obtain ⟨root, store, creation, holds⟩ := Exec.exists_of_leaves holds
  obtain ⟨second, holds⟩ := Bool.and_eq_true_iff.mp holds
  obtain rfl := beq_iff_eq.mp second
  obtain ⟨e, after, failed, holds⟩ := Exec.exists_of_stops holds
  obtain ⟨same, rest⟩ := Bool.and_eq_true_iff.mp holds
  obtain ⟨fit, tested⟩ := Bool.and_eq_true_iff.mp rest
  obtain rfl := beq_iff_eq.mp same
  have fitStore : store.allFit = true := by
    rcases Exec.bind_eq_error.mp failed with planning | ⟨_, _, planning, failed⟩
    · cases (Exec.lift_eq_error.mp planning).1
    · obtain ⟨planned, rfl⟩ := Exec.lift_eq_ok.mp planning
      obtain rfl := Except.ok.inj planned
      exact statement.tracked.error failed fit
  exact ⟨store, after, [2], BTree.create_ok MemStore.new_inUse creation fitStore, failed, fit, tested⟩

theorem storeTwo_stops : stopsOnNewPair (storeTwo (.text ['x']) (.text ['x']))
    "UNIQUE constraint failed: t.a".toList (fun after =>
      Exec.leaves (BTree.get 3 2 1) after.sink fun row _ => row == some [3, 15, 15, 120, 112]) =
    true := by
  decide +kernel

end Squrust.Sql
