import Squrust.Core.BTree.FixedBudget
import Squrust.Sql.Dml

/-!
# What the statements do to the rows of a table

The reads of a statement, as functions of the rows the tree holds
(`findUniqueConflict_observes`, `scanMatching_observes`), and its writes, as what
the tree holds afterwards (`putRow_ok`, `deleteRow_ok`). A tuple of an INSERT, a row
of an UPDATE and a row of a DELETE each have one lemma that says all they can do
when they return (`insertRow_ok`, `updateRow_ok`, `deleteRow_ok`).

Nothing is said about runs that wrote a node that does not fit its page.
-/

set_option autoImplicit false

namespace Squrust.Sql

open Squrust.Foundation

open Exec (Observes)

open Squrust.Core

variable {Query σ α : Type} {builtins : Builtins} {fuel : Nat} {table : Table} {params : List Value}

/-! ## Scans as functions of the rows -/

/-- The first conflict among the rows, in the order of their ids. -/
def firstConflict (table : Table) (values : List Value) (exclude : Option Int64) (entries : Rows) :
    Outcome SqlError (Option (Nat × Int64)) := do
  let unique ← uniqueCols table values
  if unique = [] then return none
  else
    forIn entries none fun entry found =>
      visitConflict unique values exclude entry.1 entry.2.val found

/-- The rows a condition holds for. -/
def matchingRows (builtins : Builtins) (table : Table) (params : List Value)
    (predicate : Option (Expr Query)) (entries : Rows) : Outcome SqlError (List (Int64 × List Value)) :=
  forIn entries [] fun entry out =>
    visitMatching builtins table params predicate entry.1 entry.2.val out

section

variable [PageSource σ] [MapSource σ]

/-- The loop over a cursor is a loop over the rows it has still to give. -/
theorem eachRow_observes {β : Type} {visit : Int64 → Bytes → β → Outcome SqlError (ForInStep β)}
    {cursor : BTreeCursor} {rows : Rows} {size : Nat} {result : β} {store : σ}
    (remaining : Remaining (view store) cursor rows size) :
    Observes view (eachRow visit fuel cursor result) store
      (forIn rows result fun row result => visit row.1 row.2.val result) := by
  generalize seen_eq : view store = seen at remaining
  induction fuel generalizing cursor rows size result store with
  | zero => exact .outOfFuel _
  | succ fuel ih =>
      obtain ⟨cursor', size', remaining', gives⟩ := @BTree.next_observes σ _ _ _ _ _ _ remaining
      have step := (gives store seen_eq fuel).mapError SqlError.storage
      cases rows with
      | nil =>
          apply step.bind_ok
          intro after same
          exact .pure _
      | cons row rows =>
          rw [List.forIn_cons]
          apply step.bind_ok
          intro after same
          apply Observes.bind (.lift _)
          intro visited after' _ same'
          cases visited with
          | done result => exact .pure _
          | yield result => exact ih ((same'.trans same).trans seen_eq) remaining'

variable {store : σ} {entries : Rows} {pages : List PageId}

theorem findUniqueConflict_observes (tree : BTree.Tree (view store) table.rootPage entries pages)
    (values : List Value) (exclude : Option Int64) :
    Observes view (findUniqueConflict fuel table values exclude) store
      (firstConflict table values exclude entries) := by
  apply Observes.bind (.lift _)
  intro unique read _ same
  by_cases none : unique = []
  · rw [if_pos none, if_pos none]
    exact .pure _
  · rw [if_neg none, if_neg none]
    rw [← same] at tree
    obtain ⟨cursor, size, remaining, seeks⟩ := BTree.seekFirst_observes tree
    apply ((seeks fuel).mapError SqlError.storage).bind_ok
    intro after same'
    rw [← same'] at remaining
    exact eachRow_observes remaining

theorem scanMatching_observes (tree : BTree.Tree (view store) table.rootPage entries pages)
    (predicate : Option (Expr Query)) :
    Observes view (scanMatching builtins fuel table params predicate) store
      (matchingRows builtins table params predicate entries) := by
  obtain ⟨cursor, size, remaining, seeks⟩ := BTree.seekFirst_observes tree
  apply ((seeks fuel).mapError SqlError.storage).bind_ok
  intro after same
  rw [← same] at remaining
  exact eachRow_observes remaining

end

/-! ## Reads in a transaction -/

section

variable [PageSink σ] [MapSink σ] {store after : Audited σ} {entries : Rows} {pages : List PageId}

/-- What a read leaves as it is: the pages, and the note about the nodes. -/
def sight (store : Audited σ) : View PageId PageData × Bool := (view store, store.allFit)

theorem sight_eq {first second : Audited σ} (same : sight first = sight second) :
    view first = view second ∧ first.allFit = second.allFit :=
  Prod.mk.inj same

theorem onPages_observes {code : Exec σ SqlError α} {outcome : Outcome SqlError α}
    (observes : Observes view code store.sink outcome) :
    Observes sight (onPages code) store outcome := by
  rcases observes with ⟨sink, run, same⟩ | ⟨sink, spent⟩
  · left
    refine ⟨{ store with sink }, ?_, Prod.ext same rfl⟩
    cases outcome with
    | ok value => simp only [onPages, Exec.onPart, run, Exec.lift]
    | error fault => simp only [onPages, Exec.onPart, run, Exec.lift]
  · right
    exact ⟨{ store with sink }, by simp only [onPages, Exec.onPart, spent]⟩

theorem getRow_observes (tree : BTree.Tree (view store) table.rootPage entries pages)
    (rowid : Int64) :
    Observes sight (getRow fuel table rowid) store
      (.ok ((Entries.lookup rowid entries).map Subtype.val)) := by
  have tree' : BTree.Tree (view store.sink) table.rootPage entries pages := tree
  exact onPages_observes ((BTree.get_observes tree' rowid fuel).mapError SqlError.storage)

theorem searched_observes (tree : BTree.Tree (view store) table.rootPage entries pages)
    (values : List Value) (exclude : Option Int64) :
    Observes sight (onPages (findUniqueConflict fuel table values exclude)) store
      (firstConflict table values exclude entries) := by
  have tree' : BTree.Tree (view store.sink) table.rootPage entries pages := tree
  exact onPages_observes (findUniqueConflict_observes tree' values exclude)

theorem scanned_observes (tree : BTree.Tree (view store) table.rootPage entries pages)
    (predicate : Option (Expr Query)) :
    Observes sight (onPages (scanMatching builtins fuel table params predicate)) store
      (matchingRows builtins table params predicate entries) := by
  have tree' : BTree.Tree (view store.sink) table.rootPage entries pages := tree
  exact onPages_observes (scanMatching_observes tree' predicate)

/-- The next row id comes behind what `last_key` gives: the greatest id, or nothing. -/
theorem nextRowid_observes {seen : View PageId PageData}
    (tree : BTree.Tree seen table.rootPage entries pages) :
    ∃ last : Option Int64, (∀ key, last = some key → entries.getLast?.map Prod.fst = some key) ∧
      ∀ store : Audited σ, view store = seen → Observes sight (nextRowid fuel table) store
        (if last.getD 0 = Int64.maxValue then .panic "attempt to add with overflow"
          else .ok (last.getD 0 + 1)) := by
  obtain ⟨last, greatest, reads⟩ := @BTree.lastKey_observes σ _ _ _ _ _ _ tree
  refine ⟨last, greatest, fun store same => ?_⟩
  apply (onPages_observes ((reads store.sink same fuel).mapError SqlError.storage)).bind_ok
  intro read _
  by_cases top : last.getD 0 = Int64.maxValue
  · simp only [if_pos top]
    exact .lift _
  · simp only [if_neg top]
    exact .pure _

/-- Choosing a row id only reads. -/
theorem chooseRowid_observes (tree : BTree.Tree (view store) table.rootPage entries pages)
    (values : List Value) :
    ∃ outcome, Observes sight (chooseRowid fuel table values) store outcome := by
  obtain ⟨last, _, next⟩ := @nextRowid_observes σ fuel table _ _ entries pages _ tree
  refine ⟨givenRowid table values >>= fun given => given.elim
    (if last.getD 0 = Int64.maxValue then .panic "attempt to add with overflow"
      else .ok (last.getD 0 + 1))
    fun v => Outcome.orErr (.type "INTEGER PRIMARY KEY must be an integer".toList) v.asI64, ?_⟩
  apply Observes.bind (.lift _)
  intro given read _ same
  cases given with
  | some v => exact .lift _
  | none => exact next read (sight_eq same).1

/-! ## Runs that stay within the pages -/

section

omit [MapSink σ]

open Audited (Tracked)

theorem tracked_onPages (code : Exec σ SqlError α) : Tracked (onPages code) where
  ok store after value run fit := by
    obtain ⟨sink, _, rfl⟩ := Exec.onPart_eq_ok.mp run
    exact fit
  error store after fault failed fit := by
    obtain ⟨sink, _, rfl⟩ := Exec.onPart_eq_error.mp failed
    exact fit

theorem tracked_deleteRow (rowid : Int64) :
    Tracked (deleteRow fuel table rowid : Exec (Audited σ) SqlError Bool) :=
  (BTree.tracked_delete _ _ _).mapError SqlError.storage

theorem tracked_putRow (rowid : Int64) (values : List Value) :
    Tracked (putRow fuel table rowid values : Exec (Audited σ) SqlError Unit) := by
  apply Tracked.bind (.lift _)
  intro record
  exact (BTree.tracked_insert _ _ _ _).mapError SqlError.storage

theorem tracked_chooseRowid (values : List Value) :
    Tracked (chooseRowid fuel table values : Exec (Audited σ) SqlError Int64) := by
  apply Tracked.bind (.lift _)
  intro given
  cases given with
  | some v => exact .lift _
  | none =>
      apply Tracked.bind (tracked_onPages _)
      intro last
      by_cases top : last.getD 0 = Int64.maxValue
      · simp only [if_pos top]
        exact .lift _
      · simp only [if_neg top]
        exact .pure _

theorem tracked_clearConflict (orReplace : Bool) (conflict : Option (Nat × Int64)) :
    Tracked (clearConflict fuel table orReplace conflict : Exec (Audited σ) SqlError Unit) := by
  cases conflict with
  | none => exact .pure _
  | some place =>
      simp only [clearConflict]
      split
      · exact .bind (tracked_deleteRow _) fun _ => .pure _
      · exact .bind (.lift _) fun _ => .lift _

theorem tracked_clearRowid (orReplace : Bool) (rowid : Int64) :
    Tracked (clearRowid fuel table orReplace rowid : Exec (Audited σ) SqlError Unit) := by
  apply Tracked.bind (tracked_onPages _)
  intro present
  split
  · split
    · exact .bind (tracked_deleteRow _) fun _ => .pure _
    · split
      · exact .lift _
      · exact .pure _
  · exact .pure _

theorem tracked_insertRow (plan : InsertPlan Query) (clock : Nat → Int)
    (rowExprs : List (Expr Query)) :
    Tracked (insertRow builtins fuel table params plan clock rowExprs :
      Exec (Audited σ) SqlError Int64) :=
  .bind (.lift _) fun _ => .bind (tracked_chooseRowid _) fun _ => .bind (.lift _) fun _ =>
    .bind (tracked_onPages _) fun _ => .bind (.bind (tracked_clearConflict _ _) fun _ =>
      .bind (tracked_clearRowid _ _) fun _ => tracked_putRow _ _) fun _ => .pure _

theorem tracked_insertRows (plan : InsertPlan Query) (clock : Clock) (k : Nat)
    (rows : List (List (Expr Query))) (result : InsertResult) :
    Tracked (insertRows builtins fuel table params plan clock k rows result :
      Exec (Audited σ) SqlError InsertResult) := by
  induction rows generalizing k result with
  | nil => exact .pure _
  | cons rowExprs rows ih => exact .bind (tracked_insertRow _ _ _) fun _ => ih _ _

theorem tracked_updateRow (plan : UpdatePlan Query) (rowid : Int64) (values : List Value) :
    Tracked (updateRow builtins fuel table params plan rowid values :
      Exec (Audited σ) SqlError Unit) := by
  refine .bind (.lift _) fun changed => .bind (.lift _) fun _ =>
    .bind (tracked_onPages _) fun conflict => ?_
  cases conflict with
  | some place => exact .bind (.lift _) fun _ => .lift _
  | none =>
      refine .bind ?_ fun _ => .bind ?_ fun _ => tracked_putRow _ _
      · rw [checkMove]
        split
        · apply Tracked.bind (tracked_onPages _)
          intro present
          split
          · exact .lift _
          · exact .pure _
        · exact .pure _
      · rw [leavePlace]
        split
        · exact .bind (tracked_deleteRow _) fun _ => .pure _
        · exact .pure _

theorem tracked_updateRows (plan : UpdatePlan Query) (rows : List (Int64 × List Value)) (count : Nat) :
    Tracked (updateRows builtins fuel table params plan rows count :
      Exec (Audited σ) SqlError Nat) := by
  induction rows generalizing count with
  | nil => exact .pure _
  | cons row rows ih => exact .bind (tracked_updateRow _ _ _) fun _ => ih _

theorem tracked_deleteRows (rows : List (Int64 × List Value)) (count : Nat) :
    Tracked (deleteRows fuel table rows count : Exec (Audited σ) SqlError Nat) := by
  induction rows generalizing count with
  | nil => exact .pure _
  | cons row rows ih =>
      apply Tracked.bind (tracked_deleteRow _)
      intro found
      split
      · exact ih _
      · exact ih _

theorem Statement.tracked (statement : Statement Query) :
    Tracked (statement.run builtins table : Exec (Audited σ) SqlError Nat) := by
  obtain ⟨plan, params, clock, fuel⟩ := statement
  cases plan with
  | insert plan => exact .bind (tracked_insertRows _ _ _ _ _) fun _ => .pure _
  | update plan => exact .bind (tracked_onPages _) fun _ => tracked_updateRows _ _ _
  | delete plan => exact .bind (tracked_onPages _) fun _ => tracked_deleteRows _ _

theorem tracked_runAll (statements : List (Statement Query)) :
    Tracked (runAll builtins table statements : Exec (Audited σ) SqlError Unit) := by
  induction statements with
  | nil => exact .pure _
  | cons statement rest ih => exact .bind statement.tracked fun _ => ih

end

/-! ## Writes -/

/-- A stored row takes the place of the row with its id. -/
theorem putRow_ok {rowid : Int64} {values : List Value}
    (tree : BTree.Tree (view store) table.rootPage entries pages)
    (run : putRow fuel table rowid values store = .ok () after) (fit : after.allFit = true) :
    ∃ record, asRecord ⟨rowid, withAliasNulled table.rowidAlias values⟩ = .ok record ∧
      ∃ pages', BTree.Tree (view after) table.rootPage (Entries.put rowid record entries) pages' ∧
        Replaces (view store) (view after) pages pages' := by
  obtain ⟨record, between, lifted, stored⟩ := Exec.bind_eq_ok.mp run
  obtain ⟨made, rfl⟩ := Exec.lift_eq_ok.mp lifted
  exact ⟨record, made, BTree.insert_ok tree (Exec.mapError_eq_ok.mp stored) fit⟩

theorem deleteRow_ok {rowid : Int64} {found : Bool}
    (tree : BTree.Tree (view store) table.rootPage entries pages)
    (run : deleteRow fuel table rowid store = .ok found after) (fit : after.allFit = true) :
    (found = true ↔ ∃ entry ∈ entries, entry.1 = rowid) ∧
      ∃ pages', BTree.Tree (view after) table.rootPage (Entries.drop rowid entries) pages' ∧
        Replaces (view store) (view after) pages pages' :=
  BTree.delete_ok tree (Exec.mapError_eq_ok.mp run) fit

/-! ## A tuple of an INSERT -/

/-- The rows without the one that made way. -/
def cleared : Option (Nat × Int64) → Rows → Rows
  | some (_, rowid), entries => Entries.drop rowid entries
  | none, entries => entries

/-- What is known of a tuple that was stored. -/
structure Stores (builtins : Builtins) (table : Table) (params : List Value)
    (plan : InsertPlan Query) (clock : Nat → Int) (rowExprs : List (Expr Query)) (entries : Rows)
    (values : List Value) (rowid : Int64) (conflict : Option (Nat × Int64)) (record : Record) :
    Prop where
  filled : newValues builtins table params plan clock rowExprs = .ok values
  notNull : checkNotNull table (withAlias table rowid values) = .ok ()
  searched : firstConflict table (withAlias table rowid values) none entries = .ok conflict
  replaces : conflict.isSome = true → plan.orReplace = true
  fresh : plan.orReplace = false → table.rowidAlias.isSome = true →
    Entries.lookup rowid entries = none
  encoded : asRecord ⟨rowid, withAliasNulled table.rowidAlias (withAlias table rowid values)⟩ =
    .ok record

theorem clearConflict_ok {orReplace : Bool} {conflict : Option (Nat × Int64)}
    (tree : BTree.Tree (view store) table.rootPage entries pages)
    (run : clearConflict fuel table orReplace conflict store = .ok () after)
    (fit : after.allFit = true) :
    (conflict.isSome = true → orReplace = true) ∧
      ∃ pages', BTree.Tree (view after) table.rootPage (cleared conflict entries) pages' ∧
        Replaces (view store) (view after) pages pages' := by
  cases conflict with
  | none =>
      obtain ⟨_, rfl⟩ := Exec.pure_eq_ok.mp run
      exact ⟨by simp, pages, tree, .refl tree.live⟩
  | some place =>
      obtain ⟨ci, rowid⟩ := place
      simp only [clearConflict] at run
      split at run
      · next replace =>
        obtain ⟨found, between, deleted, rest⟩ := Exec.bind_eq_ok.mp run
        obtain ⟨_, rfl⟩ := Exec.pure_eq_ok.mp rest
        exact ⟨fun _ => replace, (deleteRow_ok tree deleted fit).2⟩
      · obtain ⟨col, between, _, failed⟩ := Exec.bind_eq_ok.mp run
        simp at failed

/-- Making way for the row id does not matter to the row that is then stored under it. -/
theorem clearRowid_ok {orReplace : Bool} {rowid : Int64}
    (tree : BTree.Tree (view store) table.rootPage entries pages)
    (run : clearRowid fuel table orReplace rowid store = .ok () after)
    (fit : after.allFit = true) :
    (orReplace = false → table.rowidAlias.isSome = true → Entries.lookup rowid entries = none) ∧
      ∃ entries' pages', BTree.Tree (view after) table.rootPage entries' pages' ∧
        Replaces (view store) (view after) pages pages' ∧
        ∀ record, Entries.put rowid record entries' = Entries.put rowid record entries := by
  obtain ⟨present, read, got, run⟩ := Exec.bind_eq_ok.mp run
  obtain ⟨known, same⟩ := (getRow_observes tree rowid).of_ok got
  obtain rfl := Except.ok.inj known
  obtain ⟨sameView, _⟩ := sight_eq same
  have unchanged : ∃ entries' pages', BTree.Tree (view read) table.rootPage entries' pages' ∧
      Replaces (view store) (view read) pages pages' ∧
      ∀ record, Entries.put rowid record entries' = Entries.put rowid record entries := by
    rw [sameView]
    exact ⟨entries, pages, tree, .refl tree.live, fun _ => rfl⟩
  rw [Option.isSome_map] at run
  cases held : Entries.lookup rowid entries with
  | none =>
      simp only [held, Option.isSome_none, Bool.false_eq_true, if_false] at run
      obtain ⟨_, rfl⟩ := Exec.pure_eq_ok.mp run
      exact ⟨fun _ _ => rfl, unchanged⟩
  | some record =>
      simp only [held, Option.isSome_some, if_true] at run
      split at run
      · next replace =>
        obtain ⟨found, between, deleted, rest⟩ := Exec.bind_eq_ok.mp run
        obtain ⟨_, rfl⟩ := Exec.pure_eq_ok.mp rest
        rw [← sameView] at tree
        obtain ⟨_, pages', tree', replaces⟩ := deleteRow_ok tree deleted fit
        rw [sameView] at replaces
        refine ⟨fun plain => absurd replace (by simp [plain]), _, pages', tree', replaces, ?_⟩
        intro record
        exact Entries.put_drop
      · split at run
        · simp at run
        · next noAlias =>
          obtain ⟨_, rfl⟩ := Exec.pure_eq_ok.mp run
          exact ⟨fun _ aliased => absurd aliased noAlias, unchanged⟩

/-- **A tuple.** When it was stored, the row it conflicts with is gone and its row is
there, in place of the row with its id. -/
theorem insertRow_ok {plan : InsertPlan Query} {clock : Nat → Int} {rowExprs : List (Expr Query)}
    {rowid : Int64} (tree : BTree.Tree (view store) table.rootPage entries pages)
    (run : insertRow builtins fuel table params plan clock rowExprs store = .ok rowid after)
    (fit : after.allFit = true) :
    ∃ values conflict record,
      Stores builtins table params plan clock rowExprs entries values rowid conflict record ∧
      (∃ read, chooseRowid fuel table values store = .ok rowid read) ∧
      ∃ pages', BTree.Tree (view after) table.rootPage
          (Entries.put rowid record (cleared conflict entries)) pages' ∧
        Replaces (view store) (view after) pages pages' := by
  simp only [insertRow] at run
  obtain ⟨values, _, lifted, run⟩ := Exec.bind_eq_ok.mp run
  obtain ⟨filled, rfl⟩ := Exec.lift_eq_ok.mp lifted
  obtain ⟨rowid', chose, chosen, run⟩ := Exec.bind_eq_ok.mp run
  obtain ⟨_, chooses⟩ := @chooseRowid_observes σ fuel table _ _ store entries pages tree values
  obtain ⟨sameView, _⟩ := sight_eq (chooses.of_ok chosen).2
  obtain ⟨_, _, lifted, run⟩ := Exec.bind_eq_ok.mp run
  obtain ⟨notNull, rfl⟩ := Exec.lift_eq_ok.mp lifted
  obtain ⟨conflict, searched, search, run⟩ := Exec.bind_eq_ok.mp run
  rw [← sameView] at tree
  obtain ⟨found, same⟩ := (searched_observes tree (withAlias table rowid' values) none).of_ok search
  obtain ⟨sameView', _⟩ := sight_eq same
  obtain ⟨_, _, store_, run⟩ := Exec.bind_eq_ok.mp run
  obtain ⟨rfl, rfl⟩ := Exec.pure_eq_ok.mp run
  obtain ⟨_, clear, cleared, store_⟩ := Exec.bind_eq_ok.mp store_
  obtain ⟨_, ready, clearedRowid, put⟩ := Exec.bind_eq_ok.mp store_
  -- the writes
  rw [← sameView'] at tree
  have fitReady := tracked_putRow _ _ put fit
  have fitClear := tracked_clearRowid _ _ clearedRowid fitReady
  obtain ⟨replaces, pages₁, tree₁, step₁⟩ := clearConflict_ok tree cleared fitClear
  obtain ⟨fresh, entries₂, pages₂, tree₂, step₂, same₂⟩ :=
    clearRowid_ok tree₁ clearedRowid fitReady
  obtain ⟨record, encoded, pages₃, tree₃, step₃⟩ := putRow_ok tree₂ put fit
  rw [same₂] at tree₃
  refine ⟨values, conflict, record, ⟨filled, notNull, found, replaces, ?_, encoded⟩, ⟨_, chosen⟩,
    pages₃, tree₃, ?_⟩
  · intro plain aliased
    have absent := fresh plain aliased
    cases conflict with
    | none => exact absent
    | some place => exact absurd (replaces rfl) (by simp [plain])
  · rw [← sameView, ← sameView']
    exact (step₁.trans step₂).trans step₃

/-! ## A row of an UPDATE -/

/-- What is known of a row that was changed: its new values and its new id. -/
structure Changes (builtins : Builtins) (table : Table) (params : List Value)
    (plan : UpdatePlan Query) (rowid : Int64) (old : List Value) (entries : Rows)
    (values : List Value) (newRowid : Int64) (record : Record) : Prop where
  assigned : assign builtins table params rowid plan.assignments old rowid = .ok (values, newRowid)
  notNull : checkNotNull table values = .ok ()
  searched : firstConflict table values (some rowid) entries = .ok none
  fresh : newRowid ≠ rowid → Entries.lookup newRowid entries = none
  encoded : asRecord ⟨newRowid, withAliasNulled table.rowidAlias values⟩ = .ok record

theorem checkMove_ok {rowid newRowid : Int64}
    (tree : BTree.Tree (view store) table.rootPage entries pages)
    (run : checkMove fuel table rowid newRowid store = .ok () after) :
    (newRowid ≠ rowid → Entries.lookup newRowid entries = none) ∧ view after = view store := by
  simp only [checkMove] at run
  split at run
  · obtain ⟨present, read, got, run⟩ := Exec.bind_eq_ok.mp run
    obtain ⟨known, same⟩ := (getRow_observes tree newRowid).of_ok got
    obtain rfl := Except.ok.inj known
    rw [Option.isSome_map] at run
    split at run
    · simp at run
    · next absent =>
      obtain ⟨_, rfl⟩ := Exec.pure_eq_ok.mp run
      exact ⟨fun _ => by simpa using absent, (sight_eq same).1⟩
  · next same =>
    obtain ⟨_, rfl⟩ := Exec.pure_eq_ok.mp run
    exact ⟨fun moved => absurd moved same, rfl⟩

/-- A row that keeps its id is replaced, which is the same as leaving its place first. -/
theorem leavePlace_ok {rowid newRowid : Int64}
    (tree : BTree.Tree (view store) table.rootPage entries pages)
    (run : leavePlace fuel table rowid newRowid store = .ok () after) (fit : after.allFit = true) :
    ∃ entries' pages', BTree.Tree (view after) table.rootPage entries' pages' ∧
      Replaces (view store) (view after) pages pages' ∧
      ∀ record, Entries.put newRowid record entries' =
        Entries.put newRowid record (Entries.drop rowid entries) := by
  rw [leavePlace] at run
  split at run
  · obtain ⟨found, between, deleted, rest⟩ := Exec.bind_eq_ok.mp run
    obtain ⟨_, rfl⟩ := Exec.pure_eq_ok.mp rest
    obtain ⟨_, pages', tree', step⟩ := deleteRow_ok tree deleted fit
    exact ⟨_, pages', tree', step, fun _ => rfl⟩
  · next stays =>
    obtain ⟨_, rfl⟩ := Exec.pure_eq_ok.mp run
    obtain rfl : newRowid = rowid := not_not.mp stays
    exact ⟨entries, pages, tree, .refl tree.live, fun _ => Entries.put_drop.symm⟩

/-- **A row.** When it was changed, its new values are there under its new id, and
the row it was is gone. -/
theorem updateRow_ok {plan : UpdatePlan Query} {rowid : Int64} {old : List Value}
    (tree : BTree.Tree (view store) table.rootPage entries pages)
    (run : updateRow builtins fuel table params plan rowid old store = .ok () after)
    (fit : after.allFit = true) :
    ∃ values newRowid record,
      Changes builtins table params plan rowid old entries values newRowid record ∧
      ∃ pages', BTree.Tree (view after) table.rootPage
          (Entries.put newRowid record (Entries.drop rowid entries)) pages' ∧
        Replaces (view store) (view after) pages pages' := by
  simp only [updateRow] at run
  obtain ⟨⟨values, newRowid⟩, _, lifted, run⟩ := Exec.bind_eq_ok.mp run
  obtain ⟨assigned, rfl⟩ := Exec.lift_eq_ok.mp lifted
  obtain ⟨_, _, lifted, run⟩ := Exec.bind_eq_ok.mp run
  obtain ⟨notNull, rfl⟩ := Exec.lift_eq_ok.mp lifted
  obtain ⟨conflict, searched, search, run⟩ := Exec.bind_eq_ok.mp run
  obtain ⟨found, same⟩ := (searched_observes tree values (some rowid)).of_ok search
  obtain ⟨sameView, _⟩ := sight_eq same
  cases conflict with
  | some place =>
      obtain ⟨col, between, _, failed⟩ := Exec.bind_eq_ok.mp run
      simp at failed
  | none =>
      obtain ⟨_, checked, check, run⟩ := Exec.bind_eq_ok.mp run
      rw [← sameView] at tree
      obtain ⟨fresh, sameView'⟩ := checkMove_ok tree check
      rw [← sameView'] at tree
      obtain ⟨_, left, leave, put⟩ := Exec.bind_eq_ok.mp run
      obtain ⟨entries', pages₁, tree₁, step₁, same₁⟩ :=
        leavePlace_ok tree leave (tracked_putRow _ _ put fit)
      obtain ⟨record, encoded, pages₂, tree₂, step₂⟩ := putRow_ok tree₁ put fit
      rw [same₁] at tree₂
      refine ⟨values, newRowid, record, ⟨assigned, notNull, found, fresh, encoded⟩, pages₂, tree₂, ?_⟩
      rw [← sameView, ← sameView']
      exact step₁.trans step₂

end

end Squrust.Sql
