import Mathlib.Data.List.Forall2
import Mathlib.Data.List.ReduceOption
import Squrust.Foundation.Exchanges
import Squrust.Sql.RowInvariants

/-!
# What a statement makes of the rows of a table

The statements that change rows, as relations between the rows before and after
(`DmlPlan.Effect`). An UPDATE exchanges each row its condition holds for with one that has the
assigned values. A DELETE takes those rows away. An INSERT puts a row for each tuple, after the
rows that were in its way have gone. No pages appear in them: whatever tree holds the rows, a
statement that returns has its effect on them (`Statement.effect`).
-/

set_option autoImplicit false

namespace Squrust.Sql

open Squrust.Foundation

open Squrust.Core

variable {Query : Type}

/-! ## The rows a condition holds for -/

section

variable (builtins : Builtins) (table : Table) (params : List Value)

/-- A row as a condition sees it, if the condition holds for it. -/
def keptRow (predicate : Option (Expr Query)) (entry : Int64 × Record) :
    Outcome SqlError (Option (Int64 × List Value)) := do
  let row ← Row.decode entry.1 entry.2.val
  let values := withAlias table entry.1 row.values
  let keep ←
    match predicate with
    | none => .ok true
    | some p => do .ok (← eval builtins ⟨values, entry.1, params⟩ p).isTruthy
  return if keep then some (entry.1, values) else none

end

variable {builtins : Builtins} {table : Table} {params : List Value}

theorem visitMatching_eq (predicate : Option (Expr Query)) (entry : Int64 × Record)
    (out : List (Int64 × List Value)) :
    visitMatching builtins table params predicate entry.1 entry.2.val out =
      (keptRow builtins table params predicate entry >>= fun found =>
        .ok (.yield (out ++ found.toList))) := by
  rw [visitMatching, keptRow]
  cases Row.decode entry.1 entry.2.val with
  | error fault => rfl
  | ok row =>
      have kept : ∀ keep : Bool,
          (return .yield (if keep then out ++ [(entry.1, withAlias table entry.1 row.values)] else out) :
            Outcome SqlError (ForInStep (List (Int64 × List Value)))) =
          ((return if keep then some (entry.1, withAlias table entry.1 row.values) else none :
            Outcome SqlError (Option (Int64 × List Value))) >>= fun found =>
              .ok (.yield (out ++ found.toList))) := by
        intro keep
        cases keep with
        | true => rfl
        | false => exact congrArg (fun rest => Except.ok (ForInStep.yield rest)) (List.append_nil out).symm
      cases predicate with
      | none => exact kept true
      | some p =>
          simp only [Outcome.ok_bind]
          cases eval builtins ⟨withAlias table entry.1 row.values, entry.1, params⟩ p with
          | error fault => rfl
          | ok v => exact kept v.isTruthy

/-- The rows a condition holds for, row by row. -/
theorem matchingRows_eq_ok {predicate : Option (Expr Query)} {entries : Rows}
    {matching : List (Int64 × List Value)} :
    matchingRows builtins table params predicate entries = .ok matching ↔
      ∃ kept, List.Forall₂ (fun entry found => keptRow builtins table params predicate entry = .ok found)
        entries kept ∧ matching = kept.reduceOption := by
  have general : ∀ (entries : Rows) (out : List (Int64 × List Value)),
      (forIn entries out fun entry out =>
        visitMatching builtins table params predicate entry.1 entry.2.val out) = .ok matching ↔
      ∃ kept, List.Forall₂ (fun entry found => keptRow builtins table params predicate entry = .ok found)
        entries kept ∧ matching = out ++ kept.reduceOption := by
    intro entries
    induction entries with
    | nil =>
        intro out
        constructor
        · intro done
          exact ⟨[], .nil, by rw [List.reduceOption_nil, List.append_nil]; exact (Except.ok.inj done).symm⟩
        · rintro ⟨kept, none, rfl⟩
          cases none
          rw [List.reduceOption_nil, List.append_nil]
          rfl
    | cons entry entries ih =>
        intro out
        rw [List.forIn_cons, visitMatching_eq]
        constructor
        · intro run
          obtain ⟨visited, visit, rest⟩ := Outcome.bind_eq_ok.mp run
          obtain ⟨found, here, same⟩ := Outcome.bind_eq_ok.mp visit
          obtain rfl := Except.ok.inj same
          obtain ⟨kept, later, same⟩ := (ih _).mp rest
          refine ⟨found :: kept, .cons here later, ?_⟩
          rw [same, List.append_assoc]
          cases found with
          | none => rfl
          | some found => rfl
        · rintro ⟨kept, each, rfl⟩
          cases each with
          | @cons _ found _ kept here later =>
              rw [here, Outcome.ok_bind, Outcome.ok_bind]
              refine (ih _).mpr ⟨kept, later, ?_⟩
              rw [List.append_assoc]
              cases found with
              | none => rfl
              | some found => rfl
  exact general entries []

/-- A row that is read, and what the condition makes of it. -/
theorem keptRow_ok {predicate : Option (Expr Query)} {entry : Int64 × Record}
    {found : Option (Int64 × List Value)} (kept : keptRow builtins table params predicate entry = .ok found) :
    ∃ row keep, Row.decode entry.1 entry.2.val = .ok row ∧
      found = (if keep then some (entry.1, withAlias table entry.1 row.values) else none) ∧
      (predicate = none → keep = true) ∧
      ∀ p ∈ predicate, ∃ v,
        eval builtins ⟨withAlias table entry.1 row.values, entry.1, params⟩ p = .ok v ∧ keep = v.isTruthy := by
  obtain ⟨row, decoded, rest⟩ := Outcome.bind_eq_ok.mp kept
  cases predicate with
  | none =>
      exact ⟨row, true, decoded, (Outcome.pure_eq_ok.mp rest).symm, fun _ => rfl, fun p same => by cases same⟩
  | some p =>
      obtain ⟨v, evaluated, rest⟩ := Outcome.bind_eq_ok.mp rest
      refine ⟨row, v.isTruthy, decoded, (Outcome.pure_eq_ok.mp rest).symm, fun same => (by cases same),
        fun q same => ?_⟩
      obtain rfl := Option.some.inj same
      exact ⟨v, evaluated, rfl⟩

/-- A row as a statement takes it. -/
def TakenFrom (table : Table) (found : Int64 × List Value) (entry : Int64 × Record) : Prop :=
  ∃ row, Row.decode entry.1 entry.2.val = .ok row ∧ found = (entry.1, withAlias table entry.1 row.values)

theorem taken_of_keptRow {predicate : Option (Expr Query)} {entry : Int64 × Record}
    {found : Int64 × List Value} (kept : keptRow builtins table params predicate entry = .ok (some found)) :
    TakenFrom table found entry := by
  obtain ⟨row, keep, decoded, given, _⟩ := keptRow_ok kept
  cases keep with
  | true => exact ⟨row, decoded, Option.some.inj given⟩
  | false => cases given

/-- A row is found under its id. -/
theorem TakenFrom.fst {found : Int64 × List Value} {entry : Int64 × Record} (taken : TakenFrom table found entry) :
    found.1 = entry.1 := by
  obtain ⟨row, _, rfl⟩ := taken
  rfl

/-- The ids of the rows a condition holds for are some of those there are, in their order. -/
theorem sublist_of_matchingRows {predicate : Option (Expr Query)} {entries : Rows}
    {matching : List (Int64 × List Value)}
    (scanned : matchingRows builtins table params predicate entries = .ok matching) :
    (matching.map Prod.fst).Sublist (entries.map Prod.fst) := by
  obtain ⟨kept, each, rfl⟩ := matchingRows_eq_ok.mp scanned
  clear scanned
  induction each with
  | nil => exact .slnil
  | @cons entry found entries kept here _ ih =>
      cases found with
      | none => exact ih.cons _
      | some found =>
          rw [List.reduceOption_cons_of_some, List.map_cons, List.map_cons, (taken_of_keptRow here).fst]
          exact ih.cons_cons _

theorem nodup_of_matchingRows {predicate : Option (Expr Query)} {entries : Rows}
    {matching : List (Int64 × List Value)} (ascending : Ascending entries)
    (scanned : matchingRows builtins table params predicate entries = .ok matching) :
    (matching.map Prod.fst).Nodup := by
  have keys : (entries.map Prod.fst).Nodup :=
    List.pairwise_map.mpr (ascending.imp fun {_ _} less => less.ne)
  exact keys.sublist (sublist_of_matchingRows scanned)

/-- They are ids of rows. -/
theorem there_of_matchingRows {predicate : Option (Expr Query)} {entries : Rows}
    {matching : List (Int64 × List Value)}
    (scanned : matchingRows builtins table params predicate entries = .ok matching) :
    ∀ rowid ∈ matching.map Prod.fst, ∃ record, (rowid, record) ∈ entries := by
  intro rowid member
  obtain ⟨entry, inside, rfl⟩ := List.mem_map.mp ((sublist_of_matchingRows scanned).subset member)
  exact ⟨entry.2, inside⟩

/-! ## Effects -/

section

variable (builtins : Builtins) (table : Table) (params : List Value)

/-- A row of an UPDATE, and the row that takes its place. -/
def Assigned (plan : UpdatePlan Query) (found : Int64 × List Value) (entry : Int64 × Record) : Prop :=
  ∃ values, assign builtins table params found.1 plan.assignments found.2 found.1 = .ok (values, entry.1) ∧
    checkNotNull table values = .ok () ∧
    asRecord ⟨entry.1, withAliasNulled table.rowidAlias values⟩ = .ok entry.2

/-- An UPDATE: the rows there are afterwards are the changed ones and those the condition does not
hold for. -/
def UpdatePlan.Effect (plan : UpdatePlan Query) (before after : Rows) (count : Nat) : Prop :=
  ∃ matching changed, matchingRows builtins table params plan.predicate before = .ok matching ∧
    List.Forall₂ (Assigned builtins table params plan) matching changed ∧
    after.Perm (changed ++ before.filter fun entry => decide (entry.1 ∉ matching.map Prod.fst)) ∧
    count = matching.length

/-- A DELETE: those the condition does not hold for. -/
def DeletePlan.Effect (plan : DeletePlan Query) (before after : Rows) (count : Nat) : Prop :=
  ∃ matching, matchingRows builtins table params plan.predicate before = .ok matching ∧
    after = (before.filter fun entry => decide (entry.1 ∉ matching.map Prod.fst)) ∧
    count = matching.length

/-- The id of a new row: the value for its alias column, or else one more than the greatest id. The
greatest id is taken for 0 when there is no row, and may be taken for 0 when there are some. -/
def Chooses (values : List Value) (entries : Rows) (rowid : Int64) : Prop :=
  ∃ given, givenRowid table values = .ok given ∧ (∀ v ∈ given, v.asI64 = some rowid) ∧
    (given = none → rowid = 1 ∨ ∃ greatest ≠ Int64.maxValue,
      entries.getLast?.map Prod.fst = some greatest ∧ rowid = greatest + 1)

/-- The tuples of an INSERT, from the `k`-th on. -/
inductive InsertPlan.Inserts (plan : InsertPlan Query) (clock : Clock) :
    Nat → List (List (Expr Query)) → Rows → Rows → Prop
  | nil (k : Nat) (entries : Rows) : Inserts plan clock k [] entries entries
  | cons {k : Nat} {tuple : List (Expr Query)} {tuples : List (List (Expr Query))} {before after : Rows}
      {values : List Value} {rowid : Int64} {conflict : Option (Nat × Int64)} {record : Record}
      (stores : Stores builtins table params plan (clock k) tuple before values rowid conflict record)
      (chooses : Chooses table values before rowid)
      (later : Inserts plan clock (k + 1) tuples (Entries.put rowid record (cleared conflict before)) after) :
      Inserts plan clock k (tuple :: tuples) before after

/-- What a statement that returns makes of the rows of its table. -/
def DmlPlan.Effect (clock : Clock) (plan : DmlPlan Query) (before after : Rows) (count : Nat) : Prop :=
  match plan with
  | .insert plan =>
      InsertPlan.Inserts builtins table params plan clock 0 plan.rows before after ∧
        count = plan.rows.length
  | .update plan => plan.Effect builtins table params before after count
  | .delete plan => plan.Effect builtins table params before after count

end

/-! ## Trees -/

section

variable {σ : Type} [PageSink σ] [MapSink σ] {fuel : Nat} {store after : Audited σ} {rows : Rows}
  {pages : List PageId}

/-- Rows that are there are deleted, one after the other. -/
theorem deleteRows_effect {matching : List (Int64 × List Value)} {count answer : Nat}
    (tree : BTree.Tree (view store) table.rootPage rows pages) (once : (matching.map Prod.fst).Nodup)
    (there : ∀ rowid ∈ matching.map Prod.fst, ∃ record, (rowid, record) ∈ rows)
    (run : deleteRows fuel table matching count store = .ok answer after) (fit : after.allFit = true) :
    answer = count + matching.length ∧
      ∃ pages', BTree.Tree (view after) table.rootPage
          (rows.filter fun entry => decide (entry.1 ∉ matching.map Prod.fst)) pages' ∧
        Replaces (view store) (view after) pages pages' := by
  induction matching generalizing count store rows pages with
  | nil =>
      obtain ⟨rfl, rfl⟩ := Exec.pure_eq_ok.mp run
      have all : (rows.filter fun entry => decide (entry.1 ∉ ([] : List (Int64 × List Value)).map Prod.fst)) =
          rows := List.filter_eq_self.mpr fun entry _ => by simp
      rw [all]
      exact ⟨rfl, pages, tree, .refl tree.live⟩
  | cons found matching ih =>
      obtain ⟨rowid, old⟩ := found
      obtain ⟨notAgain, once⟩ := List.nodup_cons.mp once
      obtain ⟨deleted, between, first, later⟩ := Exec.bind_eq_ok.mp run
      have fitBetween : between.allFit = true := by
        cases deleted with
        | true => exact tracked_deleteRows _ _ later fit
        | false => exact tracked_deleteRows _ _ later fit
      obtain ⟨known, pages₁, tree₁, step₁⟩ := deleteRow_ok tree first fitBetween
      obtain ⟨record, here⟩ := there rowid List.mem_cons_self
      obtain rfl : deleted = true := known.mpr ⟨_, here, rfl⟩
      have remain : ∀ other ∈ matching.map Prod.fst, ∃ record, (other, record) ∈ Entries.drop rowid rows := by
        intro other member
        obtain ⟨record, inside⟩ := there other (List.mem_cons_of_mem _ member)
        exact ⟨record, Entries.mem_drop.mpr ⟨inside, fun same => notAgain (same ▸ member)⟩⟩
      obtain ⟨counted, pages₂, tree₂, step₂⟩ := ih tree₁ once remain later
      refine ⟨by rw [counted, List.length_cons]; omega, pages₂, ?_, step₁.trans step₂⟩
      rw [Entries.drop, List.filter_filter] at tree₂
      convert tree₂ using 2
      funext entry
      simp only [List.map_cons, List.mem_cons, not_or, ← Bool.decide_and]
      exact decide_eq_decide.mpr and_comm

/-- Rows are changed, one after the other. -/
theorem updateRows_effect {plan : UpdatePlan Query} {matching : List (Int64 × List Value)}
    {count answer : Nat} (tree : BTree.Tree (view store) table.rootPage rows pages)
    (run : updateRows builtins fuel table params plan matching count store = .ok answer after)
    (fit : after.allFit = true) :
    answer = count + matching.length ∧
      ∃ changed rows' pages', List.Forall₂ (Assigned builtins table params plan) matching changed ∧
        Exchanges (matching.map Prod.fst) changed rows rows' ∧
        BTree.Tree (view after) table.rootPage rows' pages' ∧
        Replaces (view store) (view after) pages pages' := by
  induction matching generalizing count store rows pages with
  | nil =>
      obtain ⟨rfl, rfl⟩ := Exec.pure_eq_ok.mp run
      exact ⟨rfl, [], rows, pages, .nil, .nil rows, tree, .refl tree.live⟩
  | cons found matching ih =>
      obtain ⟨rowid, old⟩ := found
      obtain ⟨_, between, first, later⟩ := Exec.bind_eq_ok.mp run
      obtain ⟨values, newRowid, record, changes, pages₁, tree₁, step₁⟩ :=
        updateRow_ok tree first (tracked_updateRows _ _ _ later fit)
      obtain ⟨counted, changed, rows', pages₂, assigned, exchanged, tree₂, step₂⟩ := ih tree₁ later
      refine ⟨by rw [counted, List.length_cons]; omega, (newRowid, record) :: changed, rows', pages₂, ?_, ?_,
        tree₂, step₁.trans step₂⟩
      · exact .cons ⟨values, changes.assigned, changes.notNull, changes.encoded⟩ assigned
      · exact .cons changes.fresh exchanged

theorem chooses_of_ok {values : List Value} {rowid : Int64} {read : Audited σ}
    (tree : BTree.Tree (view store) table.rootPage rows pages)
    (run : chooseRowid fuel table values store = .ok rowid read) : Chooses table values rows rowid := by
  obtain ⟨given, _, lifted, rest⟩ := Exec.bind_eq_ok.mp run
  obtain ⟨known, rfl⟩ := Exec.lift_eq_ok.mp lifted
  refine ⟨given, known, fun v member => ?_, fun none => ?_⟩
  · cases member
    exact Outcome.orErr_eq_ok.mp (Exec.lift_eq_ok.mp rest).1
  · subst none
    obtain ⟨last, greatest, next⟩ := @nextRowid_observes σ fuel table _ _ rows pages _ tree
    have chosen := ((next store rfl).of_ok rest).1
    split at chosen
    · cases chosen
    · next small =>
      obtain rfl := Except.ok.inj chosen
      cases last with
      | none => exact .inl rfl
      | some key => exact .inr ⟨key, small, greatest key rfl, rfl⟩

/-- Tuples are stored, one after the other. -/
theorem insertRows_effect {plan : InsertPlan Query} {clock : Clock} {k : Nat}
    {tuples : List (List (Expr Query))} {result answer : InsertResult}
    (tree : BTree.Tree (view store) table.rootPage rows pages)
    (run : insertRows builtins fuel table params plan clock k tuples result store = .ok answer after)
    (fit : after.allFit = true) :
    answer.count = result.count + tuples.length ∧
      ∃ rows' pages', InsertPlan.Inserts builtins table params plan clock k tuples rows rows' ∧
        BTree.Tree (view after) table.rootPage rows' pages' ∧
        Replaces (view store) (view after) pages pages' := by
  induction tuples generalizing k result store rows pages with
  | nil =>
      obtain ⟨rfl, rfl⟩ := Exec.pure_eq_ok.mp run
      exact ⟨rfl, rows, pages, .nil k rows, tree, .refl tree.live⟩
  | cons tuple tuples ih =>
      obtain ⟨rowid, between, first, later⟩ := Exec.bind_eq_ok.mp run
      obtain ⟨values, conflict, record, stores, ⟨_, chosen⟩, pages₁, tree₁, step₁⟩ :=
        insertRow_ok tree first (tracked_insertRows _ _ _ _ _ later fit)
      obtain ⟨counted, rows', pages₂, inserts, tree₂, step₂⟩ := ih tree₁ later
      refine ⟨by rw [counted, List.length_cons]; dsimp only; omega, rows', pages₂, ?_, tree₂,
        step₁.trans step₂⟩
      exact .cons stores (chooses_of_ok tree chosen) inserts

/-- **A statement** that returns has its effect on the rows of its table. -/
theorem Statement.effect {statement : Statement Query} {count : Nat}
    (tree : BTree.Tree (view store) table.rootPage rows pages)
    (run : statement.run builtins table store = .ok count after) (fit : after.allFit = true) :
    ∃ rows' pages', BTree.Tree (view after) table.rootPage rows' pages' ∧
      Replaces (view store) (view after) pages pages' ∧
      statement.plan.Effect builtins table statement.params statement.clock rows rows' count := by
  obtain ⟨plan, params, clock, fuel⟩ := statement
  cases plan with
  | insert plan =>
      obtain ⟨result, between, inserted, rest⟩ := Exec.bind_eq_ok.mp run
      obtain ⟨rfl, rfl⟩ := Exec.pure_eq_ok.mp rest
      obtain ⟨counted, rows', pages', inserts, tree', step⟩ := insertRows_effect tree inserted fit
      exact ⟨rows', pages', tree', step, inserts, counted.trans (Nat.zero_add _)⟩
  | update plan =>
      obtain ⟨matching, between, scanned, rest⟩ := Exec.bind_eq_ok.mp run
      obtain ⟨found, same⟩ := (scanned_observes tree plan.predicate).of_ok scanned
      rw [← (sight_eq same).1] at tree ⊢
      obtain ⟨counted, changed, rows', pages', assigned, exchanged, tree', step⟩ :=
        updateRows_effect tree rest fit
      obtain ⟨_, same⟩ := exchanged.perm tree.ascending (nodup_of_matchingRows tree.ascending found)
        (there_of_matchingRows found)
      exact ⟨rows', pages', tree', step, matching, changed, found, assigned, same,
        counted.trans (Nat.zero_add _)⟩
  | delete plan =>
      obtain ⟨matching, between, scanned, rest⟩ := Exec.bind_eq_ok.mp run
      obtain ⟨found, same⟩ := (scanned_observes tree plan.predicate).of_ok scanned
      rw [← (sight_eq same).1] at tree ⊢
      obtain ⟨counted, pages', tree', step⟩ := deleteRows_effect tree
        (nodup_of_matchingRows tree.ascending found) (there_of_matchingRows found) rest fit
      exact ⟨_, pages', tree', step, matching, found, rfl, counted.trans (Nat.zero_add _)⟩

end

end Squrust.Sql
