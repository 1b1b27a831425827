import Squrust.Sql.Catalog
import Squrust.Sql.Optimizer
import Squrust.Sql.Resolver

/-!
# The planner

A query becomes a tree of operators. The scope of the expressions of an operator is the layout of
the rows it is given: the columns of the tables and named queries of FROM, one after the other
(`planFrom`), and behind an aggregate or a set operation the columns it puts out
(`applyOrderLimit`).

A named query of WITH is planned once, and its plan stands wherever it is named (`CteDef`). The
conditions of joins are resolved with parameters numbered anew.
-/

set_option autoImplicit false

namespace Squrust.Sql

open Squrust.Foundation

variable {Sub : Type}

/-! ## FROM -/

/-- A named query: its plan, and its columns as they can be named. -/
structure CteDef (Sub : Type) where
  plan : LogicalPlan Sub
  scope : Scope

abbrev CteMap (Sub : Type) := FiniteMap Text (CteDef Sub)

def tableScope (table : Table) : Scope :=
  table.columns.map fun c => ⟨some table.name, c.name, declOpt c.declType⟩

/-- The columns under the name of a table. -/
def Scope.qualified (scope : Scope) (qualifier : Text) : Scope :=
  scope.map fun c => { c with table := some qualifier }

def aliasedScope (table : Table) (alias_ : Option Text) : Scope :=
  match alias_ with
  | some a => (tableScope table).qualified a
  | none => tableScope table

def tableFactor : TableFactor → Outcome SqlError (Text × Option Text)
  | .table name alias_ => .ok (objectNameToString name, alias_)
  | .other display => Outcome.err (.unsupported ("FROM factor: ".toList ++ display))

section

variable (catalog : Catalog) (ctes : CteMap Sub)

/-- A relation of FROM: a named query, or else a table. -/
def resolveRelation (tf : TableFactor) : Outcome SqlError (LogicalPlan Sub × Scope) := do
  let (name, alias_) ← tableFactor tf
  match ctes.get? (Text.toAsciiLowercase name) with
  | some cte => return (cte.plan, cte.scope.qualified (alias_.getD name))
  | none =>
      let table ← catalog.lookup name
      return (scanFor table, aliasedScope table alias_)

def Scope.columnInfos (scope : Scope) : List ColumnInfo :=
  scope.map fun c => ⟨c.name, c.table, c.declType⟩

/-- The condition of a join, and whether it keeps the rows of the left side. -/
def joinCondition (combined : Scope) :
    Option (JoinOperator Sub) → Resolve (Option (Expr Sub) × Bool)
  | none | some .cross => return (none, false)
  | some (.innerOn e) => do return (some (← resolveExpr combined e), false)
  | some (.leftOuterOn e) => do return (some (← resolveExpr combined e), true)
  | some (.other debug) => Exec.err (.unsupported ("join type ".toList ++ debug))

/-- One relation more. Without an operator it is a cross join. -/
def joinStep (left right : LogicalPlan Sub × Scope) (op : Option (JoinOperator Sub)) :
    Resolve (LogicalPlan Sub × Scope) := do
  let combined := left.2 ++ right.2
  let (predicate, leftOuter) ← joinCondition combined op
  return (.nestedLoopJoin left.1 right.1 predicate leftOuter combined.columnInfos, combined)

/-- The joins of an entry of FROM, from left to right. -/
def planJoins : List (Join Sub) → LogicalPlan Sub × Scope → Resolve (LogicalPlan Sub × Scope)
  | [], acc => return acc
  | join :: rest, acc => do
      let right ← Exec.lift (resolveRelation catalog ctes join.relation)
      planJoins rest (← joinStep acc right (some join.joinOperator))

/-- The entries of FROM, from left to right, with what was there before them. -/
def planEntries : List (TableWithJoins Sub) → Option (LogicalPlan Sub × Scope) →
    Resolve (LogicalPlan Sub × Scope)
  | [], some acc => return acc
  | [], none => return (.dual, [])
  | entry :: rest, acc => do
      let scan ← Exec.lift (resolveRelation catalog ctes entry.relation)
      let joined ←
        match acc with
        | none => pure scan
        | some acc => joinStep acc scan none
      planEntries rest (some (← planJoins catalog ctes entry.joins joined))

/-- What a resolution gives that begins with the first parameter. -/
def Resolve.alone {α : Type} (code : Resolve α) : Outcome SqlError α :=
  match code 0 with
  | .ok value _ => .ok value
  | .error fault _ => .error fault

def planFrom (select : Select Sub) : Outcome SqlError (LogicalPlan Sub × Scope) :=
  Resolve.alone (planEntries catalog ctes select.from_ none)

end

/-! ## The select list -/

section

variable (display : SqlDisplay Sub)

/-- Declared type for a projected expression, if it is a column. -/
def declForExpr (scope : Scope) : Expr Sub → Option Text
  | .column i => scope[i]?.bind ScopeCol.declType
  | _ => none

def deriveName : SqlExpr Sub → Text
  | .identifier id => id
  | .compoundIdentifier parts => parts.getLast?.getD []
  | other => display.expr other

/-- All columns, with their positions, of those that are asked for. -/
def expandWildcard (scope : Scope) (asked : ScopeCol → Bool) : List (Expr Sub × ColumnInfo) :=
  (scope.zipIdx.filter fun (c, _) => asked c).map fun (c, i) => (.column i, ⟨c.name, c.table, c.declType⟩)

/-- A column of a table. -/
def ScopeCol.isOf (c : ScopeCol) (table : Text) : Bool :=
  c.table.any fun x => Text.toAsciiLowercase x = Text.toAsciiLowercase table

/-- An item that is named. -/
def projectItem (scope : Scope) (e : SqlExpr Sub) (name : Text) :
    Resolve (List (Expr Sub × ColumnInfo)) := do
  let expr ← resolveExpr scope e
  return [(expr, ⟨name, none, declForExpr scope expr⟩)]

def projection (scope : Scope) : SelectItem Sub → Resolve (List (Expr Sub × ColumnInfo))
  | .wildcard => return expandWildcard scope fun _ => true
  | .qualifiedWildcard name => return expandWildcard scope fun c => c.isOf (objectNameToString name)
  | .unnamedExpr e => projectItem scope e (deriveName display e)
  | .exprWithAlias e alias_ => projectItem scope e alias_

/-- The items, one after the other. -/
def collectProjection (scope : Scope) :
    List (SelectItem Sub) → Resolve (List (Expr Sub × ColumnInfo))
  | [] => return []
  | item :: rest => do
      let first ← projection display scope item
      return first ++ (← collectProjection scope rest)

/-! ## Aggregates -/

/-- An item with the name of its column. -/
def namedItem : SelectItem Sub → Outcome SqlError (SqlExpr Sub × Text)
  | .unnamedExpr e => .ok (e, deriveName display e)
  | .exprWithAlias e alias_ => .ok (e, alias_)
  | .wildcard => Outcome.err (.unsupported "wildcard with aggregation: *".toList)
  | .qualifiedWildcard name =>
      Outcome.err (.unsupported ("wildcard with aggregation: ".toList ++ objectNameToString name ++ ".*".toList))

/-- What is made of the select list of an aggregate: the aggregates, the output columns with their
names, and what the names stand for in HAVING. -/
structure Outputs (Sub : Type) where
  aggs : List (AggExpr (Expr Sub))
  output : List (OutputCol (Expr Sub))
  columns : List ColumnInfo
  aliases : FiniteMap Text (Expr Sub)

/-- One item more. -/
def addOutput (scope : Scope) (outputs : Outputs Sub) (item : SelectItem Sub) : Resolve (Outputs Sub) := do
  let (e, name) ← Exec.lift (namedItem display item)
  let columns := outputs.columns ++ [⟨name, none, none⟩]
  match ← tryAggregate scope e with
  | some agg =>
      return ⟨outputs.aggs ++ [agg], outputs.output ++ [.agg outputs.aggs.length], columns,
        outputs.aliases.insert (Text.toAsciiLowercase name) (.column (scope.length + outputs.aggs.length))⟩
  | none =>
      let resolved ← resolveExpr scope e
      return ⟨outputs.aggs, outputs.output ++ [.expr resolved], columns,
        outputs.aliases.insert (Text.toAsciiLowercase name) resolved⟩

def collectOutputs (scope : Scope) : List (SelectItem Sub) → Outputs Sub → Resolve (Outputs Sub)
  | [], outputs => return outputs
  | item :: rest, outputs => do collectOutputs scope rest (← addOutput display scope outputs item)

def planAggregate (input : LogicalPlan Sub) (select : Select Sub) (scope : Scope) :
    Resolve (LogicalPlan Sub) := do
  let groupBy ← resolveList scope select.groupBy
  let outputs ← collectOutputs display scope select.projection ⟨[], [], [], .empty⟩
  match select.having with
  | some h =>
      let (having, aggs) ← resolveHaving scope outputs.aliases h outputs.aggs
      return .aggregate input groupBy aggs outputs.output outputs.columns scope.length (some having)
  | none =>
      return .aggregate input groupBy outputs.aggs outputs.output outputs.columns scope.length none

/-! ## ORDER BY and LIMIT -/

/-- The ordinal of an ORDER BY expression: a number from 1 on. -/
def ordinal : SqlExpr Sub → Option Nat
  | .value (.number n) => (parseUsize n).filter fun idx => 1 ≤ idx
  | _ => none

/-- The expression of an output column, by its name. -/
def aliasExpr (scope : Scope) (projected : List (Expr Sub × ColumnInfo)) : SqlExpr Sub → Option (Expr Sub)
  | .identifier id =>
      if scope.knows id then none
      else
        (projected.find? fun column =>
          Text.toAsciiLowercase column.2.name = Text.toAsciiLowercase id).map Prod.fst
  | _ => none

/-- A sort key over the rows in front of the select list: a number stands for the item there, and
a name that no column has for the item of that name. -/
def projectedKey (scope : Scope) (projected : List (Expr Sub × ColumnInfo)) (e : SqlExpr Sub) :
    Resolve (Expr Sub) :=
  match ordinal e with
  | some idx =>
      Exec.lift (Outcome.orErr (.notFound ("ORDER BY position ".toList ++ Nat.toDigits 10 idx))
        (projected[idx - 1]?.map Prod.fst))
  | none =>
      match aliasExpr scope projected e with
      | some ex => return ex
      | none => resolveExpr scope e

/-- A sort key over output rows: a number stands for the column there. -/
def outputKey (scope : Scope) (e : SqlExpr Sub) : Resolve (Expr Sub) :=
  match ordinal e with
  | some idx => return .column (idx - 1)
  | none => resolveExpr scope e

/-- Sort keys, from the first on. -/
def planSortKeys (key : SqlExpr Sub → Resolve (Expr Sub)) :
    List (OrderByExpr Sub) → Resolve (List (SortKey (Expr Sub)))
  | [] => return []
  | ob :: rest => do
      let expr ← key ob.expr
      return ⟨expr, ob.asc.getD true⟩ :: (← planSortKeys key rest)

def constU64 : SqlExpr Sub → Outcome SqlError Nat
  | .value (.number n) => Outcome.orErr (.type ("bad LIMIT/OFFSET value ".toList ++ n)) (parseUsize n)
  | other => Outcome.err (.unsupported ("non-constant LIMIT/OFFSET: ".toList ++ display.expr other))

def applyLimit (node : LogicalPlan Sub) (limit offset : Option (SqlExpr Sub)) :
    Outcome SqlError (LogicalPlan Sub) := do
  let limit ←
    match limit with
    | some e => do pure (some (UInt64.ofNat (← constU64 display e)))
    | none => pure none
  let offset ←
    match offset with
    | some e => do pure (UInt64.ofNat (← constU64 display e))
    | none => pure 0
  return if limit.isSome ∨ 0 < offset then .limit node limit offset else node

/-- Output columns as they can be named. -/
def outputScope (columns : List ColumnInfo) : Scope := columns.map fun c => ⟨c.table, c.name, c.declType⟩

/-- The tail of a query whose rows are put out already. -/
def applyOrderLimit (node : LogicalPlan Sub) (orderBy : Option (List (OrderByExpr Sub)))
    (limit offset : Option (SqlExpr Sub)) : Resolve (LogicalPlan Sub) := do
  let sorted ←
    match orderBy with
    | some order => do
        pure (.sort node (← planSortKeys (outputKey (outputScope node.columns)) order))
    | none => pure node
  Exec.lift (applyLimit display sorted limit offset)

/-! ## Queries -/

def Select.hasAggregate (select : Select Sub) : Bool :=
  !select.groupBy.isEmpty || select.projection.any fun item =>
    match item with
    | .unnamedExpr e | .exprWithAlias e _ => containsAggregate e
    | _ => false

def distinctOf : Option Distinct → Outcome SqlError Bool
  | none => .ok false
  | some .distinct => .ok true
  | some (.on display) => Outcome.err (.unsupported display)

/-- Without duplicates, if they are not wanted. -/
def distinctIf (distinct : Bool) (node : LogicalPlan Sub) : LogicalPlan Sub :=
  if distinct then .distinct node else node

variable (catalog : Catalog)

/-- FROM and WHERE. -/
def planSource (ctes : CteMap Sub) (select : Select Sub) : Resolve (LogicalPlan Sub × Scope) := do
  let (node, scope) ← Exec.lift (planFrom catalog ctes select)
  match select.selection with
  | some pred => return (.filter node (← resolveExpr scope pred), scope)
  | none => return (node, scope)

/-- A select list over rows, as a projection. -/
def project (node : LogicalPlan Sub) (projected : List (Expr Sub × ColumnInfo)) : LogicalPlan Sub :=
  .project node (projected.map Prod.fst) (projected.map Prod.snd)

/-- A SELECT that is an operand of a set operation. -/
def planSelectCore (ctes : CteMap Sub) (select : Select Sub) : Resolve (LogicalPlan Sub) := do
  let (node, scope) ← planSource catalog ctes select
  let node ←
    if select.hasAggregate then planAggregate display node select scope
    else do pure (project node (← collectProjection display scope select.projection))
  return distinctIf (← Exec.lift (distinctOf select.distinct)) node

/-- A query that is a SELECT. Without aggregates its rows are sorted before the select list. -/
def planSelectQuery (ctes : CteMap Sub) (select : Select Sub) (orderBy : Option (List (OrderByExpr Sub)))
    (limit offset : Option (SqlExpr Sub)) : Resolve (LogicalPlan Sub) := do
  let (node, scope) ← planSource catalog ctes select
  let distinct ← Exec.lift (distinctOf select.distinct)
  if select.hasAggregate then
    let node ← planAggregate display node select scope
    applyOrderLimit display (distinctIf distinct node) orderBy limit offset
  else
    let projected ← collectProjection display scope select.projection
    let sorted ←
      match orderBy with
      | some order => do
          pure (.sort node (← planSortKeys (projectedKey scope projected) order))
      | none => pure node
    Exec.lift (applyLimit display (distinctIf distinct (project sorted projected)) limit offset)

def SetOperator.kind : SetOperator → SetOpKind
  | .union => .union
  | .intersect => .intersect
  | .except => .except

/-- A set operation on plans of as many columns. -/
def setOpPlan (op : SetOperator) (all : Bool) (left right : LogicalPlan Sub) :
    Outcome SqlError (LogicalPlan Sub) :=
  if left.columns.length ≠ right.columns.length then
    Outcome.err (.schema ("SELECTs to the left and right of a set operator do not have the same " ++
      "number of result columns").toList)
  else .ok (.setOp op.kind all left right left.columns)

/-- The columns of a named query, under the names it gives them. -/
def cteColumns (name : Text) (names : List Text) (columns : List ColumnInfo) :
    Outcome SqlError (List ColumnInfo) :=
  if names = [] then .ok columns
  else if names.length ≠ columns.length then
    Outcome.err (.schema ("CTE `".toList ++ name ++ "` declares ".toList ++
      Nat.toDigits 10 names.length ++ " columns but the query returns ".toList ++
      Nat.toDigits 10 columns.length))
  else .ok (columns.zipWith (fun c n => { c with name := n }) names)

mutual

/-- Plan a query, with the named queries in scope. -/
def planQueryWith : SqlQuery Sub → CteMap Sub → Resolve (LogicalPlan Sub)
  | .mk recursive ctes body orderBy limit offset, inherited => do
      if recursive then
        Exec.err (.unsupported "recursive CTEs (WITH RECURSIVE) are not supported".toList)
      else
        let ctes ← buildCtes ctes inherited
        match body with
        | .select s => planSelectQuery display catalog ctes s orderBy limit offset
        | .setOperation _ _ _ _ =>
            let node ← planSetExpr body ctes
            applyOrderLimit display node orderBy limit offset
        | other => Exec.err (.unsupported ("query body: ".toList ++ display.query other))

/-- The named queries of WITH, each with those in front of it. -/
def buildCtes : List (Cte Sub) → CteMap Sub → Resolve (CteMap Sub)
  | [], map => return map
  | .mk name names query :: rest, map => do
      let plan ← planQueryWith query map
      let columns ← Exec.lift (cteColumns name names plan.columns)
      let scope : Scope := columns.map fun c => ⟨some name, c.name, c.declType⟩
      buildCtes rest (map.insert (Text.toAsciiLowercase name) ⟨plan, scope⟩)

/-- An operand of a set operation. -/
def planSetExpr : SetExpr Sub → CteMap Sub → Resolve (LogicalPlan Sub)
  | .select s, ctes => planSelectCore display catalog ctes s
  | .query q, ctes => planQueryWith q ctes
  | .setOperation op all left right, ctes => do
      let l ← planSetExpr left ctes
      let r ← planSetExpr right ctes
      Exec.lift (setOpPlan op all l r)
  | other, _ => Exec.err (.unsupported ("set expression: ".toList ++ display.query other))

end

def planQuery (q : SqlQuery Sub) : Resolve (LogicalPlan Sub) := planQueryWith display catalog q .empty

/-- The plan of a SELECT statement, and its columns. -/
def planSelect (q : SqlQuery Sub) : Outcome SqlError (LogicalPlan Sub × List ColumnInfo) := do
  let plan ← Resolve.alone (planQuery display catalog q)
  let plan ← foldPlan plan
  return (plan, plan.columns)

end

end Squrust.Sql
