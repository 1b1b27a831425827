import Squrust.Sql.Eval
import Squrust.Sql.Row
import Squrust.Core.Page

/-!
# Query plans

What the planner makes of a query: a tree of operators, with resolved expressions.
The expressions of aggregates, output columns and sort keys are left open (`E`),
because the executor holds them ready to be evaluated.
-/

set_option autoImplicit false

namespace Squrust.Sql

open Squrust.Foundation

open Squrust.Core (PageId)

/-- Output column metadata for a plan node. -/
structure ColumnInfo where
  name : Text
  table : Option Text
  declType : Option Text
deriving DecidableEq

inductive AggFunc where
  | count
  | countStar
  | sum
  | avg
  | min
  | max
  | groupConcat
deriving DecidableEq

structure AggExpr (E : Type) where
  func : AggFunc
  arg : Option E
  distinct : Bool
  /-- The separator of `group_concat`; `,` when there is none. -/
  sep : Option E

/-- One output column of an aggregate node. -/
inductive OutputCol (E : Type) where
  /-- Evaluated on a row of the group. -/
  | expr (e : E)
  /-- The value of the aggregate at this index. -/
  | agg (i : Nat)

structure SortKey (E : Type) where
  expr : E
  asc : Bool

inductive SetOpKind where
  | union
  | intersect
  | except
deriving DecidableEq

inductive LogicalPlan (Query : Type) where
  /-- One row without columns. -/
  | dual
  | scan (table : Text) (rootPage : PageId) (columns : List ColumnInfo) (rowidAlias : Option Nat)
      (defaults : List Value)
  | filter (input : LogicalPlan Query) (predicate : Expr Query)
  | project (input : LogicalPlan Query) (exprs : List (Expr Query)) (columns : List ColumnInfo)
  | nestedLoopJoin (left right : LogicalPlan Query) (predicate : Option (Expr Query))
      (leftOuter : Bool) (columns : List ColumnInfo)
  | aggregate (input : LogicalPlan Query) (groupBy : List (Expr Query))
      (aggs : List (AggExpr (Expr Query))) (output : List (OutputCol (Expr Query)))
      (columns : List ColumnInfo) (baseLen : Nat) (having : Option (Expr Query))
  | sort (input : LogicalPlan Query) (keys : List (SortKey (Expr Query)))
  | limit (input : LogicalPlan Query) (limit : Option UInt64) (offset : UInt64)
  | distinct (input : LogicalPlan Query)
  | setOp (kind : SetOpKind) (all : Bool) (left right : LogicalPlan Query)
      (columns : List ColumnInfo)

namespace LogicalPlan

def columns {Query : Type} : LogicalPlan Query → List ColumnInfo
  | dual => []
  | scan _ _ columns _ _ | project _ _ columns | nestedLoopJoin _ _ _ _ columns
  | setOp _ _ _ _ columns | aggregate _ _ _ _ columns _ _ => columns
  | filter input _ | sort input _ | limit input _ _ | distinct input => input.columns

end LogicalPlan

/-- An expression ready to be evaluated on a row. -/
abbrev Compute := Row → Outcome SqlError Value

/-- Evaluate an expression on a row. -/
def evalRow {Query : Type} (builtins : Builtins) (params : List Value) (expr : Expr Query) : Compute :=
  fun row => eval builtins ⟨row.values, row.rowId, params⟩ expr

end Squrust.Sql
