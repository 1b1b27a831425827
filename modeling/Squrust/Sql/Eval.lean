import Squrust.Sql.Error

/-!
# Expressions and their evaluation

Expressions whose columns are resolved to positions in a row. Evaluation gives a
value, an error, or a panic: negation, division and remainder of the smallest
integer have no result.

Subqueries are replaced by values before a statement runs, so evaluating one is
an error. The queries in them are left open (`Query`).
-/

set_option autoImplicit false

namespace Squrust.Sql

open Squrust.Foundation

inductive BinOp where
  | eq
  | notEq
  | lt
  | ltEq
  | gt
  | gtEq
  | and
  | or
  | add
  | sub
  | mul
  | div
  | mod
  | concat
deriving DecidableEq, Repr

inductive UnOp where
  | not
  | neg
deriving DecidableEq, Repr

/-- Resolved expressions. -/
inductive Expr (Query : Type) where
  | literal (v : Value)
  /-- Column at this position of the row. -/
  | column (i : Nat)
  /-- The row id of the row. -/
  | rowId
  /-- Bind parameter, from 0. -/
  | param (i : Nat)
  | binary (op : BinOp) (left right : Expr Query)
  | unary (op : UnOp) (expr : Expr Query)
  | isNull (expr : Expr Query) (negated : Bool)
  | like (expr pattern : Expr Query) (negated : Bool)
  | inList (expr : Expr Query) (list : List (Expr Query)) (negated : Bool)
  | function (name : Text) (args : List (Expr Query))
  | cast (expr : Expr Query) (ty : SqlType)
  /-- `CASE operand WHEN ... THEN ... ELSE ... END` -/
  | case (operand : Option (Expr Query)) (whens : List (Expr Query × Expr Query))
      (elseResult : Option (Expr Query))
  | scalarSubquery (query : Query)
  | exists_ (query : Query) (negated : Bool)
  | inSubquery (expr : Expr Query) (query : Query) (negated : Bool)

/-! ## Operators -/

/-- Truth in three-valued logic. -/
def truth (v : Value) : Option Bool := if v.isNull then none else some v.isTruthy

/-- `-i` -/
def negI64 (i : Int64) : Outcome SqlError Int64 :=
  if i = Int64.minValue then .panic "attempt to negate with overflow" else .ok (-i)

/-- `x / y` -/
def divI64 (x y : Int64) : Outcome SqlError Int64 :=
  if y = 0 then .panic "attempt to divide by zero"
  else if x = Int64.minValue ∧ y = -1 then .panic "attempt to divide with overflow"
  else .ok (x / y)

/-- `x % y` -/
def remI64 (x y : Int64) : Outcome SqlError Int64 :=
  if y = 0 then .panic "attempt to calculate the remainder with a divisor of zero"
  else if x = Int64.minValue ∧ y = -1 then
    .panic "attempt to calculate the remainder with overflow"
  else .ok (x % y)

def evalUnary (op : UnOp) (v : Value) : Outcome SqlError Value :=
  match op with
  | .neg =>
      match v with
      | .integer i => do return .integer (← negI64 i)
      | .real r => .ok (.real (-r))
      | .null => .ok .null
      | other => .ok (.real (-(other.asF64.getD 0)))
  | .not => .ok (if v.isNull then .null else .boolean !v.isTruthy)

/-- What the comparison operators make of an order. -/
def BinOp.holds : BinOp → Ordering → Bool
  | .eq, ord => ord = .eq
  | .notEq, ord => ord ≠ .eq
  | .lt, ord => ord = .lt
  | .ltEq, ord => ord ≠ .gt
  | .gt, ord => ord = .gt
  | .gtEq, ord => ord ≠ .lt
  | _, _ => false

/-- A result of two integers that is whole is an integer. -/
def numeric (bothInt : Bool) (res : Float64) : Value :=
  if bothInt ∧ res.fract.isZero then .integer res.toInt64 else .real res

def Value.isInteger : Value → Bool
  | .integer _ => true
  | _ => false

/-- `+`, `-`, `*`, `/` and `%`, on doubles. -/
def evalArithmetic (op : BinOp) (l r : Value) : Outcome SqlError Value :=
  if l.isNull ∨ r.isNull then .ok .null
  else do
    let bothInt := l.isInteger && r.isInteger
    let x ← Outcome.orErr (.type "non-numeric operand".toList) l.asF64
    let y ← Outcome.orErr (.type "non-numeric operand".toList) r.asF64
    match op with
    | .add => .ok (numeric bothInt (x + y))
    | .sub => .ok (numeric bothInt (x - y))
    | .mul => .ok (numeric bothInt (x * y))
    | .div =>
        if y.isZero then .ok .null
        else if bothInt then do return .integer (← divI64 x.toInt64 y.toInt64)
        else .ok (.real (x / y))
    | _ =>
        if y.isZero then .ok .null
        else if bothInt then do return .integer (← remI64 x.toInt64 y.toInt64)
        else .ok (.real (x % y))

def evalBinary (op : BinOp) (l r : Value) : Outcome SqlError Value :=
  match op with
  | .and =>
      match truth l, truth r with
      | some false, _ | _, some false => .ok (.boolean false)
      | some true, some true => .ok (.boolean true)
      | _, _ => .ok .null
  | .or =>
      match truth l, truth r with
      | some true, _ | _, some true => .ok (.boolean true)
      | some false, some false => .ok (.boolean false)
      | _, _ => .ok .null
  | .eq | .notEq | .lt | .ltEq | .gt | .gtEq =>
      if l.isNull ∨ r.isNull then .ok .null
      else do
        let ord ← Outcome.orErr (.type "incomparable values".toList) (l.compare r)
        return .boolean (op.holds ord)
  | .concat =>
      if l.isNull ∨ r.isNull then .ok .null
      else .ok (.text (l.toDisplayString ++ r.toDisplayString))
  | .add | .sub | .mul | .div | .mod => evalArithmetic op l r

/-! ## LIKE and CAST -/

/-- Of some text at the end. -/
def anySuffix (holds : Text → Bool) : Text → Bool
  | [] => holds []
  | c :: rest => holds (c :: rest) || anySuffix holds rest

def likeRec : Text → Text → Bool
  | [] => fun t => t = []
  | '%' :: p => anySuffix (likeRec p)
  | c :: p => fun
    | [] => false
    | d :: t => (c = '_' || d = c) && likeRec p t

def likeMatch (builtins : Builtins) (pattern text : Text) : Bool :=
  likeRec (builtins.toLowercase pattern) (builtins.toLowercase text)

/-- A sign at the front, and the rest. -/
def takeSign : Text → Text × Text
  | '+' :: rest => (['+'], rest)
  | '-' :: rest => (['-'], rest)
  | rest => ([], rest)

/-- The number at the front of a text. -/
def leadingNumber (s : Text) : Option Float64 :=
  let (sign, rest) := takeSign (Text.trimStart s)
  let (whole, rest) := Float64.takeDigits rest
  let (fraction, rest) : Text × Text :=
    match rest with
    | '.' :: behind => ('.' :: (Float64.takeDigits behind).1, (Float64.takeDigits behind).2)
    | _ => ([], rest)
  if whole = [] ∧ fraction.drop 1 = [] then none
  else
    let exponent : Text :=
      match rest with
      | e :: behind =>
          let (sign, behind) := takeSign behind
          let digits := (Float64.takeDigits behind).1
          if (e = 'e' ∨ e = 'E') ∧ digits ≠ [] then e :: sign ++ digits else []
      | [] => []
    Float64.parse (sign ++ whole ++ fraction ++ exponent)

/-- `CAST(v AS ty)` -/
def cast (v : Value) (ty : SqlType) : Value :=
  if v.isNull then .null
  else
    match ty with
    | .integer =>
        match v with
        | .integer i => .integer i
        | .boolean b => .integer (bit b)
        | .text t => .integer (((leadingNumber t).map Float64.toInt64).getD 0)
        | other => .integer ((other.asF64.map Float64.toInt64).getD 0)
    | .real =>
        match v with
        | .text t => .real ((leadingNumber t).getD 0)
        | other => .real (other.asF64.getD 0)
    | .text =>
        match v with
        | .text t => .text t
        | other => .text other.toDisplayString
    | .boolean => .boolean v.isTruthy
    | _ => v

/-! ## Evaluation -/

/-- What an expression is evaluated against. -/
structure Env where
  values : List Value
  rowId : Int64
  params : List Value
deriving DecidableEq

section

variable {Query : Type} (builtins : Builtins) (env : Env)

mutual

/-- Evaluate an expression against a row and the bind parameters. -/
def eval : Expr Query → Outcome SqlError Value
  | .literal v => .ok v
  | .column i =>
      Outcome.orErr (.type ("column index ".toList ++ Nat.toDigits 10 i ++ " out of range".toList))
        env.values[i]?
  | .rowId => .ok (.integer env.rowId)
  | .param i =>
      Outcome.orErr (.type ("missing bind parameter $".toList ++ Nat.toDigits 10 (i + 1)))
        env.params[i]?
  | .unary op expr => do evalUnary op (← eval expr)
  | .binary op left right => do
      let l ← eval left
      let r ← eval right
      evalBinary op l r
  | .isNull expr negated => do return .boolean ((← eval expr).isNull != negated)
  | .like expr pattern negated => do
      let v ← eval expr
      let p ← eval pattern
      if v.isNull ∨ p.isNull then return .null
      else return .boolean (likeMatch builtins p.toDisplayString v.toDisplayString != negated)
  | .inList expr list negated => do
      let v ← eval expr
      if v.isNull then return .null
      else return .boolean ((← evalIn v list) != negated)
  | .function name args => do builtins.function name (← evalArgs args)
  | .cast expr ty => do return cast (← eval expr) ty
  | .case operand whens elseResult => do
      let matched ←
        match operand with
        | some operand => do evalWhens (some (← eval operand)) whens
        | none => evalWhens none whens
      match matched with
      | some result => return result
      | none =>
          match elseResult with
          | some otherwise => eval otherwise
          | none => return .null
  | .scalarSubquery _ | .exists_ _ _ | .inSubquery _ _ _ =>
      Outcome.err (.unsupported "correlated subqueries are not supported".toList)

/-- The arguments of a function, from the left. -/
def evalArgs : List (Expr Query) → Outcome SqlError (List Value)
  | [] => return []
  | arg :: rest => do
      let v ← eval arg
      return v :: (← evalArgs rest)

/-- Whether a value is in a list, which is evaluated up to there. -/
def evalIn (v : Value) : List (Expr Query) → Outcome SqlError Bool
  | [] => return false
  | item :: rest => do
      if v.compare (← eval item) = some .eq then return true else evalIn v rest

/-- The result of the first branch that is taken. -/
def evalWhens (operand : Option Value) :
    List (Expr Query × Expr Query) → Outcome SqlError (Option Value)
  | [] => return none
  | (cond, result) :: rest => do
      let v ← eval cond
      let matched : Bool :=
        match operand with
        | some operand => operand.compare v = some .eq
        | none => v.isTruthy
      if matched then return some (← eval result) else evalWhens operand rest

end

end

end Squrust.Sql
