import Squrust.Foundation.Text

/-!
# Syntax of SQL

What the SQL parser makes of a text, as far as the statements are planned. What the
planner refuses is kept as its text, and clauses it never looks at are left out.

The queries inside of expressions are left open (`Sub`): they are planned apart, when
their values are needed.
-/

set_option autoImplicit false

namespace Squrust.Sql

open Squrust.Foundation

/-- A literal or a placeholder. -/
inductive SqlValue where
  | number (s : Text)
  | singleQuotedString (s : Text)
  | doubleQuotedString (s : Text)
  | escapedStringLiteral (s : Text)
  | hexStringLiteral (s : Text)
  | boolean (b : Bool)
  | null
  | placeholder (p : Text)
  | other (display : Text)
deriving DecidableEq

inductive BinaryOperator where
  | eq
  | notEq
  | lt
  | ltEq
  | gt
  | gtEq
  | and
  | or
  | plus
  | minus
  | multiply
  | divide
  | modulo
  | stringConcat
  | other (debug : Text)
deriving DecidableEq

inductive UnaryOperator where
  | not
  | minus
  | plus
  | other (debug : Text)
deriving DecidableEq

/-- Where `TRIM` cuts. -/
inductive TrimWhereField where
  | both
  | leading
  | trailing
deriving DecidableEq

/-- An argument of a function. -/
inductive FunctionArg (E : Type) where
  | unnamed (e : E)
  | named (e : E)
  /-- `*` or `t.*` -/
  | wildcard
  | other

/-- Expressions. -/
inductive SqlExpr (Sub : Type) where
  | identifier (id : Text)
  | compoundIdentifier (parts : List Text)
  | value (v : SqlValue)
  | nested (inner : SqlExpr Sub)
  | binaryOp (left : SqlExpr Sub) (op : BinaryOperator) (right : SqlExpr Sub)
  | unaryOp (op : UnaryOperator) (expr : SqlExpr Sub)
  | isNull (expr : SqlExpr Sub)
  | isNotNull (expr : SqlExpr Sub)
  | like (negated : Bool) (expr pattern : SqlExpr Sub)
  | inList (expr : SqlExpr Sub) (list : List (SqlExpr Sub)) (negated : Bool)
  | ceil (expr : SqlExpr Sub)
  | floor (expr : SqlExpr Sub)
  | subquery (query : Sub)
  | exists_ (query : Sub) (negated : Bool)
  | inSubquery (expr : SqlExpr Sub) (query : Sub) (negated : Bool)
  | between (expr : SqlExpr Sub) (negated : Bool) (low high : SqlExpr Sub)
  /-- A call; without a list of arguments it has none. -/
  | function (name : List Text) (distinct : Bool) (args : List (FunctionArg (SqlExpr Sub)))
  | cast (expr : SqlExpr Sub) (dataType : Text)
  /-- `TRIM(what FROM expr)` or `TRIM(expr, characters)` -/
  | trim (expr : SqlExpr Sub) (trimWhere : Option TrimWhereField) (trimWhat : Option (SqlExpr Sub))
      (trimCharacters : List (SqlExpr Sub))
  | case (operand : Option (SqlExpr Sub)) (whens : List (SqlExpr Sub × SqlExpr Sub))
      (elseResult : Option (SqlExpr Sub))
  | substring (expr : SqlExpr Sub) (substringFrom substringFor : Option (SqlExpr Sub))
  | other (display : Text)

/-! ## Queries -/

section

variable (Sub : Type)

inductive SelectItem where
  | wildcard
  | qualifiedWildcard (name : List Text)
  | unnamedExpr (e : SqlExpr Sub)
  | exprWithAlias (expr : SqlExpr Sub) (alias_ : Text)

inductive TableFactor where
  | table (name : List Text) (alias_ : Option Text)
  | other (display : Text)

inductive JoinOperator where
  /-- `CROSS JOIN`, or `JOIN` without a condition. -/
  | cross
  | innerOn (e : SqlExpr Sub)
  | leftOuterOn (e : SqlExpr Sub)
  | other (debug : Text)

structure Join where
  relation : TableFactor
  joinOperator : JoinOperator Sub

structure TableWithJoins where
  relation : TableFactor
  joins : List (Join Sub)

inductive Distinct where
  | distinct
  | on (display : Text)

structure Select where
  distinct : Option Distinct
  projection : List (SelectItem Sub)
  from_ : List (TableWithJoins Sub)
  selection : Option (SqlExpr Sub)
  /-- None for `GROUP BY ALL` too. -/
  groupBy : List (SqlExpr Sub)
  having : Option (SqlExpr Sub)

structure OrderByExpr where
  expr : SqlExpr Sub
  asc : Option Bool

end

inductive SetOperator where
  | union
  | intersect
  | except
deriving DecidableEq

mutual

/-- A query: `WITH`, the body, `ORDER BY`, `LIMIT` and `OFFSET`. -/
inductive SqlQuery (Sub : Type) where
  | mk (recursive : Bool) (ctes : List (Cte Sub)) (body : SetExpr Sub)
      (orderBy : Option (List (OrderByExpr Sub))) (limit offset : Option (SqlExpr Sub))

/-- A named query of `WITH`, and names for its columns. -/
inductive Cte (Sub : Type) where
  | mk (name : Text) (columns : List Text) (query : SqlQuery Sub)

/-- The body of a query. -/
inductive SetExpr (Sub : Type) where
  | select (s : Select Sub)
  | query (q : SqlQuery Sub)
  | setOperation (op : SetOperator) (all : Bool) (left right : SetExpr Sub)
  | values (rows : List (List (SqlExpr Sub)))
  | other (display : Text)

end

/-! ## Definitions -/

section

variable (Sub : Type)

inductive ColumnOption where
  | notNull
  /-- `UNIQUE` or `PRIMARY KEY` -/
  | unique (isPrimary : Bool)
  | default (expr : SqlExpr Sub)
  | other (display : Text)

structure ColumnDef where
  name : Text
  /-- The declared type as text. -/
  dataType : Text
  options : List (ColumnOption Sub)

/-- A constraint that stands behind the columns. -/
inductive TableConstraint where
  | primaryKey (columns : List Text)
  | other (display : Text)

structure CreateTable where
  name : List Text
  columns : List (ColumnDef Sub)
  constraints : List TableConstraint
  ifNotExists : Bool
  /-- The other clauses. -/
  rest : Text

structure CreateIndex where
  name : Option (List Text)
  tableName : List Text
  columns : List (SqlExpr Sub)
  unique : Bool
  ifNotExists : Bool

end

/-- How the parser writes syntax as text. -/
structure SqlDisplay (Sub : Type) where
  expr : SqlExpr Sub → Text
  query : SetExpr Sub → Text
  columnDef : ColumnDef Sub → Text
  createTable : CreateTable Sub → Text
  createIndex : CreateIndex Sub → Text

end Squrust.Sql
