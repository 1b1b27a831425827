import Mathlib.Data.Char
import Mathlib.Data.List.Lex
import Squrust.Foundation.FiniteMap
import Squrust.Sql.Ddl
import Squrust.Sql.Plan

/-!
# Name resolution

Expressions as they are written become expressions on rows: a name becomes the position of the
column it stands for in a scope, and a placeholder the number of a bind parameter. Placeholders
without a number of their own are numbered as they are met, after the greatest number so
far (`paramIndex`), which is the state of a resolution.

The queries of subqueries are kept as they are.
-/

set_option autoImplicit false

namespace Squrust.Sql

open Squrust.Foundation

/-! ## Scopes -/

/-- One column visible in the current scope. -/
structure ScopeCol where
  table : Option Text
  name : Text
  declType : Option Text
deriving DecidableEq

/-- The columns expressions can name, in the layout of the row. -/
abbrev Scope := List ScopeCol

/-- Whether a column is the one that is named, of any table or of one. -/
def ScopeCol.isNamed (c : ScopeCol) (table : Option Text) (name : Text) : Bool :=
  Text.toAsciiLowercase c.name = Text.toAsciiLowercase name &&
    match table, c.table with
    | none, _ => true
    | some t, some ct => Text.toAsciiLowercase t = Text.toAsciiLowercase ct
    | some _, none => false

namespace Scope

/-- Go on from a column, with the one that was found before it. -/
def resolveFrom (table : Option Text) (name : Text) :
    List ScopeCol → Nat → Option Nat → Outcome SqlError Nat
  | [], _, found => Outcome.orErr (.notFound ("column `".toList ++ name ++ ['`'])) found
  | c :: rest, i, found =>
      if c.isNamed table name then
        if found.isSome then Outcome.err (.ambiguous ("column `".toList ++ name ++ ['`']))
        else resolveFrom table name rest (i + 1) (some i)
      else resolveFrom table name rest (i + 1) found

/-- The only column of a name. -/
def resolve (self : Scope) (table : Option Text) (name : Text) : Outcome SqlError Nat :=
  resolveFrom table name self 0 none

/-- Whether a name alone is that of one column. -/
def knows (self : Scope) (name : Text) : Bool := (self.resolve none name).isOk

end Scope

/-! ## Parameters -/

/-- Resolution with the number of the next parameter. -/
abbrev Resolve (α : Type) := Exec Nat SqlError α

/-- `parse::<usize>()`, and `parse::<u64>()` -/
def parseUsize (text : Text) : Option Nat :=
  let unsigned : Option Nat :=
    match text with
    | '+' :: digits => Text.readNat digits
    | digits => Text.readNat digits
  unsigned.filter fun n => n < 2 ^ 64

/-- The number of a placeholder: its own, or the next. -/
def paramIndex (placeholder : Text) : Resolve Nat := fun next =>
  match parseUsize (placeholder.filter Text.isAsciiDigit) with
  | some (n + 1) => .ok n (max next (n + 1))
  | _ =>
      if next + 1 < 2 ^ 64 then .ok next (next + 1)
      else .error (.panic "attempt to add with overflow") next

/-! ## Expressions -/

def mapBinop : BinaryOperator → Outcome SqlError BinOp
  | .eq => .ok .eq
  | .notEq => .ok .notEq
  | .lt => .ok .lt
  | .ltEq => .ok .ltEq
  | .gt => .ok .gt
  | .gtEq => .ok .gtEq
  | .and => .ok .and
  | .or => .ok .or
  | .plus => .ok .add
  | .minus => .ok .sub
  | .multiply => .ok .mul
  | .divide => .ok .div
  | .modulo => .ok .mod
  | .stringConcat => .ok .concat
  | .other debug => Outcome.err (.unsupported ("operator ".toList ++ debug))

section

variable {Sub : Type}

/-- A unary operator on what is resolved. A plus is left out. -/
def mapUnop (op : UnaryOperator) (expr : Expr Sub) : Outcome SqlError (Expr Sub) :=
  match op with
  | .not => .ok (.unary .not expr)
  | .minus => .ok (.unary .neg expr)
  | .plus => .ok expr
  | .other debug => Outcome.err (.unsupported ("unary operator ".toList ++ debug))

/-- `a BETWEEN low AND high` is `a >= low AND a <= high`. -/
def betweenExpr (a low high : Expr Sub) (negated : Bool) : Expr Sub :=
  let and : Expr Sub := .binary .and (.binary .gtEq a low) (.binary .ltEq a high)
  if negated then .unary .not and else and

def trimName : Option TrimWhereField → Text
  | some .leading => "LTRIM".toList
  | some .trailing => "RTRIM".toList
  | _ => "TRIM".toList

variable (scope : Scope)

mutual

def resolveExpr : SqlExpr Sub → Resolve (Expr Sub)
  | .identifier id => do
      if Text.toAsciiLowercase id = "rowid".toList ∧ scope.knows "rowid".toList = false then
        return .rowId
      return .column (← Exec.lift (scope.resolve none id))
  | .compoundIdentifier [table, name] => do
      return .column (← Exec.lift (scope.resolve (some table) name))
  | .compoundIdentifier parts =>
      Exec.err (.unsupported ("compound identifier with ".toList ++ Nat.toDigits 10 parts.length ++
        " parts".toList))
  | .value (.placeholder p) => do return .param (← paramIndex p)
  | .value v => do return .literal (← Exec.lift (valueFromSql v))
  | .nested inner => resolveExpr inner
  | .binaryOp left op right => do
      let l ← resolveExpr left
      let r ← resolveExpr right
      return .binary (← Exec.lift (mapBinop op)) l r
  | .unaryOp op expr => do
      let e ← resolveExpr expr
      Exec.lift (mapUnop op e)
  | .isNull expr => do return .isNull (← resolveExpr expr) false
  | .isNotNull expr => do return .isNull (← resolveExpr expr) true
  | .like negated expr pattern => do
      let e ← resolveExpr expr
      let p ← resolveExpr pattern
      return .like e p negated
  | .inList expr list negated => do
      let e ← resolveExpr expr
      let items ← resolveList list
      return .inList e items negated
  | .ceil expr => do return .function "CEIL".toList [← resolveExpr expr]
  | .floor expr => do return .function "FLOOR".toList [← resolveExpr expr]
  | .subquery query => return .scalarSubquery query
  | .exists_ query negated => return .exists_ query negated
  | .inSubquery expr query negated => do return .inSubquery (← resolveExpr expr) query negated
  | .between expr negated low high => do
      let a ← resolveExpr expr
      let lo ← resolveExpr low
      let hi ← resolveExpr high
      return betweenExpr a lo hi negated
  | .function name _ args => do
      return .function (Text.toAsciiUppercase (objectNameToString name)) (← resolveArgs args)
  | .cast expr dataType => do
      return .cast (← resolveExpr expr) (SqlType.affinityFromDecl dataType)
  | .trim expr trimWhere (some what) _ => do
      let e ← resolveExpr expr
      let w ← resolveExpr what
      return .function (trimName trimWhere) [e, w]
  | .trim expr trimWhere none (chars :: _) => do
      let e ← resolveExpr expr
      let c ← resolveExpr chars
      return .function (trimName trimWhere) [e, c]
  | .trim expr trimWhere none [] => do return .function (trimName trimWhere) [← resolveExpr expr]
  | .case operand whens elseResult => do
      let operand ← resolveOption operand
      let whens ← resolveWhens whens
      let elseResult ← resolveOption elseResult
      return .case operand whens elseResult
  | .substring expr substringFrom substringFor => do
      let e ← resolveExpr expr
      let from_ ← resolveOption substringFrom
      let for_ ← resolveOption substringFor
      return .function "SUBSTR".toList (e :: (from_.toList ++ for_.toList))
  | .other display => Exec.err (.unsupported ("expression: ".toList ++ display))

def resolveOption : Option (SqlExpr Sub) → Resolve (Option (Expr Sub))
  | some e => do return some (← resolveExpr e)
  | none => return none

def resolveList : List (SqlExpr Sub) → Resolve (List (Expr Sub))
  | [] => return []
  | e :: rest => do
      let e ← resolveExpr e
      return e :: (← resolveList rest)

/-- The arguments of a scalar function. -/
def resolveArgs : List (FunctionArg (SqlExpr Sub)) → Resolve (List (Expr Sub))
  | [] => return []
  | .unnamed e :: rest | .named e :: rest => do
      let e ← resolveExpr e
      return e :: (← resolveArgs rest)
  | _ :: _ => Exec.err (.unsupported "wildcard argument to scalar function".toList)

def resolveWhens : List (SqlExpr Sub × SqlExpr Sub) → Resolve (List (Expr Sub × Expr Sub))
  | [] => return []
  | (cond, result) :: rest => do
      let c ← resolveExpr cond
      let r ← resolveExpr result
      return (c, r) :: (← resolveWhens rest)

end

end

/-! ## Aggregates -/

def isAggregateName (name : Text) : Bool :=
  ["COUNT", "SUM", "AVG", "MIN", "MAX", "TOTAL", "GROUP_CONCAT"].any fun known =>
    Text.toAsciiUppercase name = known.toList

/-- `MIN` and `MAX` of two arguments or more are scalar functions. -/
def isScalarExtreme (name : Text) (args : Nat) : Bool :=
  (name = "MIN".toList || name = "MAX".toList) && 1 < args

section

variable {Sub : Type}

mutual

/-- Does this expression contain an aggregate function call, as far as it is searched? -/
def containsAggregate : SqlExpr Sub → Bool
  | .function name _ args =>
      let upper := Text.toAsciiUppercase (objectNameToString name)
      (isAggregateName upper && !isScalarExtreme upper args.length) || argsContainAggregate args
  | .binaryOp left _ right => containsAggregate left || containsAggregate right
  | .unaryOp _ expr | .nested expr => containsAggregate expr
  | _ => false

def argsContainAggregate : List (FunctionArg (SqlExpr Sub)) → Bool
  | [] => false
  | .unnamed e :: rest | .named e :: rest => containsAggregate e || argsContainAggregate rest
  | _ :: rest => argsContainAggregate rest

end

/-- The function of an aggregate's name. -/
def aggFunc (name : Text) : Outcome SqlError AggFunc :=
  if name = "COUNT".toList then .ok .count
  else if name = "SUM".toList ∨ name = "TOTAL".toList then .ok .sum
  else if name = "AVG".toList then .ok .avg
  else if name = "MIN".toList then .ok .min
  else if name = "MAX".toList then .ok .max
  else if name = "GROUP_CONCAT".toList then .ok .groupConcat
  else .panic "internal error: entered unreachable code"

/-- An argument of an aggregate, if it is there. -/
def aggregateArg (scope : Scope) (message : Text) :
    Option (FunctionArg (SqlExpr Sub)) → Resolve (Option (Expr Sub))
  | some (.unnamed e) => do return some (← resolveExpr scope e)
  | none => return none
  | _ => Exec.err (.unsupported message)

/-- `COUNT(*)` -/
def isCountStar (name : Text) : List (FunctionArg (SqlExpr Sub)) → Bool
  | [.wildcard] => name = "COUNT".toList
  | _ => false

/-- A call of an aggregate function; none when the expression is something else. -/
def tryAggregate (scope : Scope) : SqlExpr Sub → Resolve (Option (AggExpr (Expr Sub)))
  | .function name distinct args => do
      let upper := Text.toAsciiUppercase (objectNameToString name)
      if !isAggregateName upper || isScalarExtreme upper args.length then return none
      if isCountStar upper args then return some ⟨.countStar, none, distinct, none⟩
      let arg ← aggregateArg scope ("argument to aggregate ".toList ++ upper) args[0]?
      let sep ←
        if upper = "GROUP_CONCAT".toList then
          aggregateArg scope "separator to group_concat".toList args[1]?
        else pure none
      return some ⟨← Exec.lift (aggFunc upper), arg, distinct, sep⟩
  | _ => return none

/-- A HAVING predicate on the row of a group: an aggregate is added to those there are, and its
value stands behind the columns. A name that no column has may be that of an output column. -/
def resolveHaving (scope : Scope) (aliases : FiniteMap Text (Expr Sub)) :
    SqlExpr Sub → List (AggExpr (Expr Sub)) → Resolve (Expr Sub × List (AggExpr (Expr Sub)))
  | e, aggs => do
      match ← tryAggregate scope e with
      | some agg => return (.column (scope.length + aggs.length), aggs ++ [agg])
      | none =>
          match e with
          | .nested inner => resolveHaving scope aliases inner aggs
          | .binaryOp left op right => do
              let op ← Exec.lift (mapBinop op)
              let (l, aggs) ← resolveHaving scope aliases left aggs
              let (r, aggs) ← resolveHaving scope aliases right aggs
              return (.binary op l r, aggs)
          | .unaryOp op expr => do
              let (inner, aggs) ← resolveHaving scope aliases expr aggs
              return (← Exec.lift (mapUnop op inner), aggs)
          | .identifier id =>
              match scope.knows id, aliases.get? (Text.toAsciiLowercase id) with
              | false, some ex => return (ex, aggs)
              | _, _ => return (← resolveExpr scope (.identifier id), aggs)
          | e => return (← resolveExpr scope e, aggs)

end

end Squrust.Sql
