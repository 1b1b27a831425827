import Squrust.Core.BTree.MemStore
import Squrust.Sql.WideStreams

/-!
# Running queries

A query reads from one snapshot. Its subqueries are answered from there first, from the innermost
on, and stand in the plan as constants and lists of constants (`rewritePlanSubqueries`). Then the
executors are built and drained.

The plan that is run has the columns of the one that was made, and is well indexed if that was
(`rewritePlan_wellIndexed`). So no query whose numbers fit fails for a column that is not there,
whatever its subqueries answer and whatever the pages hold (`rows_elsewhere`).
-/

set_option autoImplicit false

namespace Squrust.Sql

open Squrust.Foundation

open Squrust.Foundation.Outcome.Ensures (any_iff)

/-! ## Plans without subqueries -/

section

variable {Query : Type} (subqueryRows : Query → Outcome SqlError (List (List Value)))

def rewriteAgg (agg : AggExpr (Expr Query)) : Outcome SqlError (AggExpr (Expr Query)) := do
  let arg ← rewriteOption subqueryRows agg.arg
  let sep ← rewriteOption subqueryRows agg.sep
  return { agg with arg, sep }

def rewriteCol : OutputCol (Expr Query) → Outcome SqlError (OutputCol (Expr Query))
  | .expr e => do return .expr (← rewriteExprSubqueries subqueryRows e)
  | .agg i => return .agg i

def rewriteKey (key : SortKey (Expr Query)) : Outcome SqlError (SortKey (Expr Query)) := do
  return ⟨← rewriteExprSubqueries subqueryRows key.expr, key.asc⟩

/-- Replace every subquery in a plan by what it evaluates to, in the inputs first. -/
def rewritePlanSubqueries : LogicalPlan Query → Outcome SqlError (LogicalPlan Query)
  | .dual => return .dual
  | .scan table rootPage columns rowidAlias defaults =>
      return .scan table rootPage columns rowidAlias defaults
  | .filter input predicate => do
      let input ← rewritePlanSubqueries input
      return .filter input (← rewriteExprSubqueries subqueryRows predicate)
  | .project input exprs columns => do
      let input ← rewritePlanSubqueries input
      return .project input (← rewriteList subqueryRows exprs) columns
  | .nestedLoopJoin left right predicate leftOuter columns => do
      let left ← rewritePlanSubqueries left
      let right ← rewritePlanSubqueries right
      return .nestedLoopJoin left right (← rewriteOption subqueryRows predicate) leftOuter columns
  | .aggregate input groupBy aggs output columns baseLen having => do
      let input ← rewritePlanSubqueries input
      let groupBy ← rewriteList subqueryRows groupBy
      let aggs ← aggs.mapM (rewriteAgg subqueryRows)
      let output ← output.mapM (rewriteCol subqueryRows)
      let having ← rewriteOption subqueryRows having
      return .aggregate input groupBy aggs output columns baseLen having
  | .sort input keys => do
      let input ← rewritePlanSubqueries input
      return .sort input (← keys.mapM (rewriteKey subqueryRows))
  | .limit input limit offset => do return .limit (← rewritePlanSubqueries input) limit offset
  | .distinct input => do return .distinct (← rewritePlanSubqueries input)
  | .setOp kind all left right columns => do
      let left ← rewritePlanSubqueries left
      let right ← rewritePlanSubqueries right
      return .setOp kind all left right columns

section

variable {subqueryRows}

theorem rewriteList_eq_mapM (list : List (Expr Query)) :
    rewriteList subqueryRows list = list.mapM (rewriteExprSubqueries subqueryRows) := by
  induction list with
  | nil => rfl
  | cons item rest ih => rw [rewriteList, List.mapM_cons, ih]

/-- Replacing subqueries keeps the columns of a plan, and that they are there where they are read. -/
theorem rewritePlan_wellIndexed {plan : LogicalPlan Query} (indexed : plan.WellIndexed) :
    (rewritePlanSubqueries subqueryRows plan).Ensures (fun _ => True) fun made =>
      made.columns = plan.columns ∧ made.WellIndexed := by
  have expr : ∀ {e : Expr Query} {width : Nat}, e.Within width →
      (rewriteExprSubqueries subqueryRows e).Ensures (fun _ => True) (Expr.Within width) :=
    fun within => any_iff.mpr fun _ run => rewrite_within within run
  have option : ∀ {e : Option (Expr Query)} {width : Nat}, OptionWithin width e →
      (rewriteOption subqueryRows e).Ensures (fun _ => True) (OptionWithin width) :=
    fun within => any_iff.mpr fun _ run => rewriteOption_within within run
  have list : ∀ {exprs : List (Expr Query)} {width : Nat}, ListWithin width exprs →
      (rewriteList subqueryRows exprs).Ensures (fun _ => True) fun made =>
        made.length = exprs.length ∧ ListWithin width made := by
    intro exprs width within
    rw [rewriteList_eq_mapM]
    refine Outcome.Ensures.mono (.mapM fun e listed => expr (listWithin_iff.mp within e listed)) fun made given => ?_
    exact ⟨given.1, listWithin_iff.mpr given.2⟩
  induction plan with
  | dual | scan => exact ⟨rfl, indexed⟩
  | filter input predicate ih =>
      refine (ih indexed.1).bind fun made kept => ?_
      refine (expr indexed.2).bind fun p within => ?_
      exact ⟨kept.1, kept.2, kept.1 ▸ within⟩
  | project input exprs columns ih =>
      refine (ih indexed.1).bind fun made kept => ?_
      refine (list indexed.2.1).bind fun es within => ?_
      exact ⟨rfl, kept.2, kept.1 ▸ within.2, within.1.trans indexed.2.2⟩
  | nestedLoopJoin left right predicate leftOuter columns ihLeft ihRight =>
      obtain ⟨indexedLeft, indexedRight, width, within⟩ := indexed
      refine (ihLeft indexedLeft).bind fun l keptLeft => ?_
      refine (ihRight indexedRight).bind fun r keptRight => ?_
      refine (option within).bind fun p within => ?_
      exact ⟨rfl, keptLeft.2, keptRight.2, keptLeft.1 ▸ keptRight.1 ▸ width, within⟩
  | aggregate input groupBy aggs output columns baseLen having ih =>
      obtain ⟨indexedInput, whole, width, inGroupBy, inAggs, inOutput, inHaving⟩ := indexed
      refine (ih indexedInput).bind fun made kept => ?_
      refine (list inGroupBy).bind fun groups withinGroups => ?_
      have rewrittenAgg : ∀ agg ∈ aggs, (rewriteAgg subqueryRows agg).Ensures (fun _ => True)
          (AggExpr.Within baseLen) := fun agg listed =>
        (option (inAggs agg listed).1).bind fun _ withinArg =>
          (option (inAggs agg listed).2).bind fun _ withinSep => ⟨withinArg, withinSep⟩
      have rewrittenCol : ∀ col ∈ output, (rewriteCol subqueryRows col).Ensures (fun _ => True)
          (OutputCol.Within baseLen aggs.length) := by
        intro col listed
        cases col with
        | agg i => exact inOutput _ listed
        | expr e => exact (expr (inOutput _ listed)).bind fun _ within => within
      refine Outcome.Ensures.bind (.mapM rewrittenAgg) fun as madeAggs => ?_
      refine Outcome.Ensures.bind (.mapM rewrittenCol) fun cols madeCols => ?_
      refine (option inHaving).bind fun h within => ?_
      exact ⟨rfl, kept.2, whole.trans (congrArg List.length kept.1).symm, madeCols.1.trans width,
        withinGroups.2, madeAggs.2, madeAggs.1 ▸ madeCols.2, madeAggs.1 ▸ within⟩
  | sort input keys ih =>
      refine (ih indexed.1).bind fun made kept => ?_
      have keyed : ∀ key ∈ keys, (rewriteKey subqueryRows key).Ensures (fun _ => True)
          fun key => key.expr.Within input.columns.length :=
        fun key listed => (expr (indexed.2 key listed)).bind fun _ within => within
      refine Outcome.Ensures.bind (.mapM keyed) fun ks within => ?_
      exact ⟨kept.1, kept.2, kept.1 ▸ within.2⟩
  | limit input limit offset ih => exact (ih indexed).bind fun _ kept => kept
  | distinct input ih => exact (ih indexed).bind fun _ kept => kept
  | setOp kind all left right columns ihLeft ihRight =>
      obtain ⟨indexedLeft, indexedRight, leftWidth, rightWidth⟩ := indexed
      refine (ihLeft indexedLeft).bind fun l keptLeft => ?_
      refine (ihRight indexedRight).bind fun r keptRight => ?_
      exact ⟨rfl, keptLeft.2, keptRight.2, keptLeft.1 ▸ leftWidth, keptRight.1 ▸ rightWidth⟩

end

end

/-! ## Reading a snapshot -/

section

variable {σ Sub : Type} [Core.PageSource σ] (builtins : Builtins) (params : List Value)

/-- The rows of a plan, from a snapshot. -/
def LogicalPlan.rows (plan : LogicalPlan Sub) (source : σ) (fuel : Nat) : Outcome SqlError (List Row) :=
  let exec : Executor σ := build builtins params plan
  match Pull.collectAll exec.next fuel (source, exec.start) with
  | .ok rows _ => .ok rows
  | .error fault _ => .error fault

variable (display : SqlDisplay Sub) (catalog : Catalog) (queryOf : Sub → SqlQuery Sub)

/-- Plan, fold, build and drain a subquery. Subqueries in it are nested one level deeper. -/
def subqueryRows (source : σ) (fuel : Nat) : Nat → Sub → Outcome SqlError (List (List Value))
  | 0, _ => .error .outOfFuel
  | depth + 1, q => do
      let plan ← planSubquery display catalog (queryOf q)
      let plan ← rewritePlanSubqueries (subqueryRows source fuel depth) plan
      let rows ← plan.rows builtins params source fuel
      return rows.map Row.values

/-- The columns and the rows of a statement that is a query. -/
def queryRows (stmt : SqlStatement Sub) (source : σ) (fuel depth : Nat) :
    Outcome SqlError (List ColumnInfo × List Row) := do
  match ← plan display catalog stmt with
  | .query plan columns =>
      let plan ← rewritePlanSubqueries
        (subqueryRows builtins params display catalog queryOf source fuel depth) plan
      return (columns, ← plan.rows builtins params source fuel)
  | _ =>
      Outcome.err (.unsupported
        "query() requires a SELECT statement; use execute() for DML/DDL".toList)

section

variable {builtins params}

/-- The rows of a well-indexed plan have its columns, and none of its expressions misses one. -/
theorem LogicalPlan.rows_elsewhere (quiet : builtins.NoColumns) {plan : LogicalPlan Sub} (indexed : plan.WellIndexed)
    (source : σ) (fuel : Nat) :
    (plan.rows builtins params source fuel).Ensures Elsewhere fun rows =>
      ∀ row ∈ rows, plan.columns.length ≤ row.values.length := by
  obtain ⟨inv, starts, wide⟩ := @build_wide σ Sub builtins quiet params _ plan indexed
  have ran := Pull.Kept.collectAll Elsewhere.outOfFuel wide fuel starts source
  rw [columns_build] at ran
  rw [LogicalPlan.rows]
  revert ran
  cases Pull.collectAll (build builtins params plan : Executor σ).next fuel
      (source, (build builtins params plan : Executor σ).start) with
  | ok rows after => exact fun ran => ran.2
  | error fault after => exact id

variable {display catalog}

/-- **A query finds its columns.** When the numbers in the ORDER BY of its compound and grouped
queries are those of result columns, a query that is accepted never fails because a column index is
out of range: whatever the pages hold, whatever its parameters are and its subqueries answer. Its
rows have a value for each column. -/
theorem query_findsColumns (quiet : builtins.NoColumns) {stmt : SqlStatement Sub} {made final : LogicalPlan Sub}
    {columns : List ColumnInfo} (fits : stmt.fits catalog = true)
    (planned : plan display catalog stmt = .ok (.query made columns))
    {answers : Sub → Outcome SqlError (List (List Value))}
    (rewritten : rewritePlanSubqueries answers made = .ok final) (source : σ) (fuel : Nat) :
    (final.rows builtins params source fuel).Ensures Elsewhere fun rows =>
      ∀ row ∈ rows, columns.length ≤ row.values.length := by
  obtain ⟨indexed, named⟩ : made.WellIndexed ∧ made.columns = columns :=
    (plan_wellIndexed_iff planned).mpr fits
  obtain ⟨sameColumns, stillIndexed⟩ := any_iff.mp (rewritePlan_wellIndexed indexed) final rewritten
  rw [← named, ← sameColumns]
  exact final.rows_elsewhere quiet stillIndexed source fuel

end

end

/-- A count that is sorted by its only column runs without missing one. -/
theorem query_findsColumns_count :
    ∃ (made final : LogicalPlan Empty) (columns : List ColumnInfo),
      plan .blank .empty (countOrderedBy ['1']) = .ok (.query made columns) ∧
      rewritePlanSubqueries Empty.elim made = .ok final ∧
      (final.rows .bare [] Core.MemStore.new 5).Ensures Elsewhere fun rows =>
        ∀ row ∈ rows, columns.length ≤ row.values.length := by
  obtain ⟨made, columns, final, planned, rewritten⟩ : ∃ made columns final,
      plan (.blank : SqlDisplay Empty) .empty (countOrderedBy ['1']) = .ok (.query made columns) ∧
        rewritePlanSubqueries Empty.elim made = .ok final := ⟨_, _, _, rfl, rfl⟩
  have fits : (countOrderedBy ['1']).fits .empty = true := by decide
  have quiet : Builtins.bare.NoColumns := fun name args => rfl
  exact ⟨made, final, columns, planned, rewritten, query_findsColumns quiet fits planned rewritten _ _⟩

end Squrust.Sql
