import Squrust.Sql.PlanStatements
import Squrust.Sql.PlannedShapes

/-!
# Plans read columns that are there

A statement is planned to expressions that read columns of the rows they are evaluated on. There
is one exception. A number in the ORDER BY of a compound or grouped query is taken to be a
column of its output rows without a look at how many there are; over a plain SELECT the same
number is looked up in the select list. So the plan of a statement is well indexed exactly if
those numbers are in range (`plan_wellIndexed_iff`).
-/

set_option autoImplicit false

namespace Squrust.Sql

open Squrust.Foundation

variable {Sub : Type}

/-! ## Folding -/

theorem forall_fold_within_iff {width : Nat} {exprs made : List (Expr Sub)} (run : exprs.mapM fold = .ok made) :
    ListWithin width made ↔ ListWithin width exprs := by
  have pairs := Outcome.mapM_forall₂ run
  clear run
  induction pairs with
  | nil => exact Iff.rfl
  | cons folded _ ih => exact and_congr (fold_within_iff folded) ih

theorem foldOption_within_iff {width : Nat} {e made : Option (Expr Sub)} (run : foldOption e = .ok made) :
    OptionWithin width made ↔ OptionWithin width e := by
  cases e with
  | none =>
      obtain rfl := Except.ok.inj run
      rfl
  | some expr =>
      obtain ⟨inner, folded, rest⟩ := Outcome.bind_eq_ok.mp run
      obtain rfl := Except.ok.inj rest
      exact fold_within_iff folded

theorem foldCol_within_iff {width aggs : Nat} {col made : OutputCol (Expr Sub)} (run : foldCol col = .ok made) :
    made.Within width aggs ↔ col.Within width aggs := by
  cases col with
  | agg i =>
      obtain rfl := Except.ok.inj run
      rfl
  | expr e =>
      obtain ⟨inner, folded, rest⟩ := Outcome.bind_eq_ok.mp run
      obtain rfl := Except.ok.inj rest
      exact fold_within_iff folded

theorem foldKey_within_iff {width : Nat} {key made : SortKey (Expr Sub)} (run : foldKey key = .ok made) :
    made.expr.Within width ↔ key.expr.Within width := by
  obtain ⟨inner, folded, rest⟩ := Outcome.bind_eq_ok.mp run
  obtain rfl := Except.ok.inj rest
  exact fold_within_iff folded

/-- What holds of each of the results holds of each of the items, and the other way around. -/
theorem forall_mapM_iff {α β : Type} {items : List α} {made : List β} {f : α → Outcome SqlError β}
    {p : α → Prop} {q : β → Prop} (same : ∀ {item : α} {value : β}, f item = .ok value → (q value ↔ p item))
    (run : items.mapM f = .ok made) : (∀ value ∈ made, q value) ↔ ∀ item ∈ items, p item := by
  have pairs := Outcome.mapM_forall₂ run
  clear run
  induction pairs with
  | nil => simp
  | cons first _ ih =>
      rw [List.forall_mem_cons, List.forall_mem_cons]
      exact and_congr (same first) ih

/-- Folding keeps the columns of a plan, and which of them its expressions read. -/
theorem foldPlan_wellIndexed_iff {plan made : LogicalPlan Sub} (run : foldPlan plan = .ok made) :
    made.columns = plan.columns ∧ (made.WellIndexed ↔ plan.WellIndexed) := by
  induction plan generalizing made with
  | dual | scan | setOp =>
      obtain rfl := Except.ok.inj run
      exact ⟨rfl, Iff.rfl⟩
  | filter input predicate ih =>
      obtain ⟨input', foldedInput, rest⟩ := Outcome.bind_eq_ok.mp run
      obtain ⟨predicate', folded, rest⟩ := Outcome.bind_eq_ok.mp rest
      obtain rfl := Except.ok.inj rest
      obtain ⟨columns, indexed⟩ := ih foldedInput
      refine ⟨columns, ?_⟩
      rw [LogicalPlan.WellIndexed, LogicalPlan.WellIndexed, indexed, columns, fold_within_iff folded]
  | project input exprs columns ih =>
      obtain ⟨input', foldedInput, rest⟩ := Outcome.bind_eq_ok.mp run
      obtain ⟨exprs', folded, rest⟩ := Outcome.bind_eq_ok.mp rest
      obtain rfl := Except.ok.inj rest
      obtain ⟨columns, indexed⟩ := ih foldedInput
      have length := (Outcome.mapM_forall₂ folded).length_eq
      refine ⟨rfl, ?_⟩
      rw [LogicalPlan.WellIndexed, LogicalPlan.WellIndexed, indexed, columns,
        forall_fold_within_iff folded, length]
  | nestedLoopJoin left right predicate leftOuter columns ihLeft ihRight =>
      obtain ⟨left', foldedLeft, rest⟩ := Outcome.bind_eq_ok.mp run
      obtain ⟨right', foldedRight, rest⟩ := Outcome.bind_eq_ok.mp rest
      obtain ⟨predicate', folded, rest⟩ := Outcome.bind_eq_ok.mp rest
      obtain rfl := Except.ok.inj rest
      obtain ⟨leftColumns, leftIndexed⟩ := ihLeft foldedLeft
      obtain ⟨rightColumns, rightIndexed⟩ := ihRight foldedRight
      refine ⟨rfl, ?_⟩
      rw [LogicalPlan.WellIndexed, LogicalPlan.WellIndexed, leftIndexed, rightIndexed, leftColumns,
        rightColumns, foldOption_within_iff folded]
  | aggregate input groupBy aggs output columns baseLen having ih =>
      obtain ⟨input', foldedInput, rest⟩ := Outcome.bind_eq_ok.mp run
      obtain ⟨groupBy', foldedKeys, rest⟩ := Outcome.bind_eq_ok.mp rest
      obtain ⟨output', foldedOutput, rest⟩ := Outcome.bind_eq_ok.mp rest
      obtain ⟨having', foldedHaving, rest⟩ := Outcome.bind_eq_ok.mp rest
      obtain rfl := Except.ok.inj rest
      obtain ⟨columns, indexed⟩ := ih foldedInput
      have length := (Outcome.mapM_forall₂ foldedOutput).length_eq
      have outputs : (∀ col ∈ output', col.Within baseLen aggs.length) ↔
          ∀ col ∈ output, col.Within baseLen aggs.length :=
        forall_mapM_iff foldCol_within_iff foldedOutput
      refine ⟨rfl, ?_⟩
      rw [LogicalPlan.WellIndexed, LogicalPlan.WellIndexed, indexed, columns, length,
        forall_fold_within_iff foldedKeys, outputs, foldOption_within_iff foldedHaving]
  | sort input keys ih =>
      obtain ⟨input', foldedInput, rest⟩ := Outcome.bind_eq_ok.mp run
      obtain ⟨keys', folded, rest⟩ := Outcome.bind_eq_ok.mp rest
      obtain rfl := Except.ok.inj rest
      obtain ⟨columns, indexed⟩ := ih foldedInput
      have sameKeys : (∀ key ∈ keys', key.expr.Within input.columns.length) ↔
          ∀ key ∈ keys, key.expr.Within input.columns.length :=
        forall_mapM_iff foldKey_within_iff folded
      refine ⟨columns, ?_⟩
      rw [LogicalPlan.WellIndexed, LogicalPlan.WellIndexed, indexed, columns, sameKeys]
  | limit input limit offset ih =>
      obtain ⟨input', foldedInput, rest⟩ := Outcome.bind_eq_ok.mp run
      obtain rfl := Except.ok.inj rest
      have inside := ih foldedInput
      exact inside
  | distinct input ih =>
      obtain ⟨input', foldedInput, rest⟩ := Outcome.bind_eq_ok.mp run
      obtain rfl := Except.ok.inj rest
      have inside := ih foldedInput
      exact inside

/-! ## Statements -/

/-- The table a statement changes. -/
def SqlStatement.target : SqlStatement Sub → Text
  | .insert into => objectNameToString into.tableName
  | .update change =>
      match change.relation with
      | .table name _ => objectNameToString name
      | .other _ => []
  | .delete del =>
      match del.from_.head?.map TableWithJoins.relation with
      | some (.table name _) => objectNameToString name
      | _ => []
  | _ => []

/-- Whether every number in an ORDER BY over output rows is that of a column. -/
def SqlStatement.fits (catalog : Catalog) : SqlStatement Sub → Bool
  | .query q => (queryShape catalog q .empty).fits
  | _ => true

/-- What INSERT, UPDATE and DELETE do to a table: values go to columns it has, and are computed of
no columns in an INSERT, else of the columns of a row. -/
def StatementPlan.WellIndexedOn (table : Table) : StatementPlan Sub → Prop
  | .insert p =>
      p.table = table.name ∧ (∀ i ∈ p.targetCols, i < table.columns.length) ∧
        ∀ row ∈ p.rows, ListWithin 0 row
  | .update p =>
      p.table = table.name ∧
        (∀ a ∈ p.assignments, a.1 < table.columns.length ∧ a.2.Within table.columns.length) ∧
        OptionWithin table.columns.length p.predicate
  | .delete p => p.table = table.name ∧ OptionWithin table.columns.length p.predicate
  | _ => True

/-- Every expression of a plan reads columns of the rows it is evaluated on. -/
def StatementPlan.WellIndexed (catalog : Catalog) (target : Text) : StatementPlan Sub → Prop
  | .query plan columns => plan.WellIndexed ∧ plan.columns = columns
  | .ddl _ => True
  | changes => ∃ table, catalog.getTable target = some table ∧ changes.WellIndexedOn table

theorem lt_of_columnIndex {table : Table} {name : Text} {i : Nat} (found : table.columnIndex name = some i) :
    i < table.columns.length :=
  (List.findIdx?_eq_some_iff_getElem.mp found).1

theorem targetColumns_lt {table : Table} {names : List Text} {made : List Nat}
    (run : targetColumns table names = .ok made) : ∀ i ∈ made, i < table.columns.length := by
  rw [targetColumns] at run
  split at run
  · obtain rfl := Except.ok.inj run
    exact fun i member => List.mem_range.mp member
  · have each : ∀ {name : Text} {i : Nat}, targetColumn table name = .ok i →
        (i < table.columns.length ↔ True) :=
      fun found => iff_true_intro (lt_of_columnIndex (Outcome.orErr_eq_ok.mp found))
    exact (forall_mapM_iff each run).mpr fun _ _ => trivial

theorem resolveRows_within {rows : List (List (SqlExpr Sub))} {made : List (List (Expr Sub))} {n m : Nat}
    (run : resolveRows rows n = .ok made m) : ∀ row ∈ made, ListWithin 0 row := by
  induction rows generalizing made n m with
  | nil =>
      obtain ⟨rfl, _⟩ := Exec.pure_eq_ok.mp run
      exact fun row none => by cases none
  | cons row rows ih =>
      obtain ⟨first, _, resolved, rest⟩ := Exec.bind_eq_ok.mp run
      obtain ⟨others, _, later, rest⟩ := Exec.bind_eq_ok.mp rest
      obtain ⟨rfl, _⟩ := Exec.pure_eq_ok.mp rest
      exact List.forall_mem_cons.mpr ⟨resolveList_within resolved, ih later⟩

theorem length_tableScope (table : Table) : (tableScope table).length = table.columns.length :=
  List.length_map ..

theorem resolveAssignments_within {table : Table} {assignments : List (Assignment Sub)}
    {made : List (Nat × Expr Sub)} {n m : Nat} (run : resolveAssignments table assignments n = .ok made m) :
    ∀ a ∈ made, a.1 < table.columns.length ∧ a.2.Within table.columns.length := by
  induction assignments generalizing made n m with
  | nil =>
      obtain ⟨rfl, _⟩ := Exec.pure_eq_ok.mp run
      exact fun a none => by cases none
  | cons a assignments ih =>
      obtain ⟨idx, _, column, rest⟩ := Exec.bind_eq_ok.mp run
      obtain ⟨value, _, resolved, rest⟩ := Exec.bind_eq_ok.mp rest
      obtain ⟨others, _, later, rest⟩ := Exec.bind_eq_ok.mp rest
      obtain ⟨rfl, _⟩ := Exec.pure_eq_ok.mp rest
      refine List.forall_mem_cons.mpr ⟨⟨?_, length_tableScope table ▸ resolveExpr_within resolved⟩, ih later⟩
      have target := (Exec.lift_eq_ok.mp column).1
      cases target? : a.target with
      | columnName name =>
          rw [target?] at target
          exact lt_of_columnIndex (Outcome.orErr_eq_ok.mp target)
      | other display =>
          rw [target?] at target
          cases target

section

variable {display : SqlDisplay Sub} {catalog : Catalog}

theorem planInsert_wellIndexed {insert : Insert Sub} {made : InsertPlan Sub} {n m : Nat}
    (run : planInsert display catalog insert n = .ok made m) :
    StatementPlan.WellIndexed catalog (objectNameToString insert.tableName) (.insert made) := by
  obtain ⟨table, _, lookup, rest⟩ := Exec.bind_eq_ok.mp run
  obtain ⟨targetCols, _, targets, rest⟩ := Exec.bind_eq_ok.mp rest
  obtain ⟨source, _, _, rest⟩ := Exec.bind_eq_ok.mp rest
  refine ⟨table, Outcome.orErr_eq_ok.mp (Exec.lift_eq_ok.mp lookup).1, ?_⟩
  cases source with
  | values rows =>
      obtain ⟨resolved, _, within, rest⟩ := Exec.bind_eq_ok.mp rest
      obtain ⟨rfl, _⟩ := Exec.pure_eq_ok.mp rest
      exact ⟨rfl, targetColumns_lt (Exec.lift_eq_ok.mp targets).1, resolveRows_within within⟩
  | select s | query q | setOperation op all left right | other display => exact absurd rest (by simp)

theorem planUpdate_wellIndexed {update : Update Sub} {made : UpdatePlan Sub} {n m : Nat}
    (run : planUpdate catalog update n = .ok made m) :
    StatementPlan.WellIndexed catalog (SqlStatement.update update).target (.update made) := by
  obtain ⟨⟨name, alias_⟩, _, factor, rest⟩ := Exec.bind_eq_ok.mp run
  obtain ⟨table, _, lookup, rest⟩ := Exec.bind_eq_ok.mp rest
  obtain ⟨assignments, _, assigned, rest⟩ := Exec.bind_eq_ok.mp rest
  obtain ⟨predicate, _, resolved, rest⟩ := Exec.bind_eq_ok.mp rest
  obtain ⟨rfl, _⟩ := Exec.pure_eq_ok.mp rest
  have target : (SqlStatement.update update).target = name := by
    have named := (Exec.lift_eq_ok.mp factor).1
    rw [SqlStatement.target]
    cases relation : update.relation with
    | table parts alias_ =>
        rw [relation] at named
        exact congrArg Prod.fst (Except.ok.inj named)
    | other display =>
        rw [relation] at named
        cases named
  rw [target]
  exact ⟨table, Outcome.orErr_eq_ok.mp (Exec.lift_eq_ok.mp lookup).1, rfl, resolveAssignments_within assigned,
    length_tableScope table ▸ resolveOption_within resolved⟩

theorem planDelete_wellIndexed {del : Delete Sub} {made : DeletePlan Sub} {n m : Nat}
    (run : planDelete catalog del n = .ok made m) :
    StatementPlan.WellIndexed catalog (SqlStatement.delete del).target (.delete made) := by
  obtain ⟨twj, _, first, rest⟩ := Exec.bind_eq_ok.mp run
  obtain ⟨⟨name, alias_⟩, _, factor, rest⟩ := Exec.bind_eq_ok.mp rest
  obtain ⟨table, _, lookup, rest⟩ := Exec.bind_eq_ok.mp rest
  obtain ⟨predicate, _, resolved, rest⟩ := Exec.bind_eq_ok.mp rest
  obtain ⟨rfl, _⟩ := Exec.pure_eq_ok.mp rest
  have target : (SqlStatement.delete del).target = name := by
    have named := (Exec.lift_eq_ok.mp factor).1
    rw [SqlStatement.target, Outcome.orErr_eq_ok.mp (Exec.lift_eq_ok.mp first).1, Option.map_some]
    cases relation : twj.relation with
    | table parts alias_ =>
        rw [relation] at named
        exact congrArg Prod.fst (Except.ok.inj named)
    | other display =>
        rw [relation] at named
        cases named
  rw [target]
  exact ⟨table, Outcome.orErr_eq_ok.mp (Exec.lift_eq_ok.mp lookup).1, rfl,
    length_tableScope table ▸ resolveOption_within resolved⟩

theorem planSelect_shape {q : SqlQuery Sub} {made : LogicalPlan Sub} {columns : List ColumnInfo}
    (run : planSelect display catalog q = .ok (made, columns)) :
    made.columns = columns ∧ made.HasShape (queryShape catalog q .empty) := by
  obtain ⟨planned, first, rest⟩ := Outcome.bind_eq_ok.mp run
  obtain ⟨folded, second, rest⟩ := Outcome.bind_eq_ok.mp rest
  obtain ⟨m, planning⟩ := Resolve.alone_eq_ok.mp first
  have none : CteMap.HasShapes (.empty : CteMap Sub) .empty := ⟨fun none => (nomatch none), fun _ => rfl⟩
  have hasShape := planQueryWith_shape none planning
  obtain ⟨sameColumns, indexed⟩ := foldPlan_wellIndexed_iff second
  cases Outcome.pure_eq_ok.mp rest
  exact ⟨rfl, sameColumns ▸ hasShape.width, indexed.trans hasShape.wellIndexed⟩

/-- **Plans read columns that are there.** A statement that is accepted has a plan every expression
of which reads columns of the rows it is evaluated on, if and only if the numbers in the ORDER BY
of its compound and grouped queries are those of result columns. -/
theorem plan_wellIndexed_iff {stmt : SqlStatement Sub} {planned : StatementPlan Sub}
    (run : plan display catalog stmt = .ok planned) :
    planned.WellIndexed catalog stmt.target ↔ stmt.fits catalog = true := by
  cases stmt with
  | query q =>
      obtain ⟨⟨made, columns⟩, first, rest⟩ := Outcome.bind_eq_ok.mp run
      obtain rfl := Outcome.pure_eq_ok.mp rest
      obtain ⟨sameColumns, hasShape⟩ := planSelect_shape first
      exact (and_iff_left sameColumns).trans hasShape.wellIndexed
  | insert insert =>
      obtain ⟨made, first, rest⟩ := Outcome.bind_eq_ok.mp run
      obtain rfl := Outcome.pure_eq_ok.mp rest
      obtain ⟨m, planning⟩ := Resolve.alone_eq_ok.mp first
      exact iff_of_true (planInsert_wellIndexed planning) rfl
  | update update =>
      obtain ⟨made, first, rest⟩ := Outcome.bind_eq_ok.mp run
      obtain rfl := Outcome.pure_eq_ok.mp rest
      obtain ⟨m, planning⟩ := Resolve.alone_eq_ok.mp first
      exact iff_of_true (planUpdate_wellIndexed planning) rfl
  | delete del =>
      obtain ⟨made, first, rest⟩ := Outcome.bind_eq_ok.mp run
      obtain rfl := Outcome.pure_eq_ok.mp rest
      obtain ⟨m, planning⟩ := Resolve.alone_eq_ok.mp first
      exact iff_of_true (planDelete_wellIndexed planning) rfl
  | ddl statement =>
      obtain ⟨made, first, rest⟩ := Outcome.bind_eq_ok.mp run
      obtain rfl := Outcome.pure_eq_ok.mp rest
      exact iff_of_true trivial rfl
  | other display => cases run

end

/-- Syntax without text. -/
def SqlDisplay.blank : SqlDisplay Sub := ⟨fun _ => [], fun _ => [], fun _ => [], fun _ => [], fun _ => []⟩

/-- `SELECT count(*) AS c ORDER BY n` -/
def countOrderedBy (n : Text) : SqlStatement Empty :=
  .query (.mk false []
    (.select ⟨none, [.exprWithAlias (.function ["count".toList] false [.wildcard]) ['c']], [], none, [], none⟩)
    (some [⟨.value (.number n), none⟩]) none none)

/-- The first column of a count is there to be sorted by; a second one is sorted by, too. -/
theorem plan_countOrderedBy :
    (∃ planned, plan .blank .empty (countOrderedBy ['1']) = .ok planned ∧ planned.WellIndexed .empty []) ∧
    ∃ planned, plan .blank .empty (countOrderedBy ['2']) = .ok planned ∧ ¬ planned.WellIndexed .empty [] := by
  have first : (countOrderedBy ['1']).fits .empty = true := by decide
  have second : (countOrderedBy ['2']).fits .empty = false := by decide
  obtain ⟨planned, run⟩ : ∃ planned, plan (.blank : SqlDisplay Empty) .empty (countOrderedBy ['1']) =
      .ok planned := ⟨_, rfl⟩
  obtain ⟨other, run'⟩ : ∃ planned, plan (.blank : SqlDisplay Empty) .empty (countOrderedBy ['2']) =
      .ok planned := ⟨_, rfl⟩
  refine ⟨⟨planned, run, (plan_wellIndexed_iff run).mpr first⟩, ⟨other, run', fun indexed => ?_⟩⟩
  exact absurd ((plan_wellIndexed_iff run').mp indexed) (by simp [second])

end Squrust.Sql
