import Squrust.Sql.Eval

/-!
# Subqueries

Before a statement runs, the subqueries in its expressions are replaced by their
values: a scalar subquery by the first value of its first row, `EXISTS` by whether
there is a row, and `IN (SELECT ...)` by a list of the first values of the rows.

What a query answers is left open. When an expression could be rewritten, none of
its subqueries is left (`rewrite_noSubquery`).
-/

set_option autoImplicit false

namespace Squrust.Sql

open Squrust.Foundation

/-- The first value of a row, or NULL if it has none. -/
def firstOrNull (row : List Value) : Value := row.head?.getD .null

section

variable {Query : Type} (subqueryRows : Query → Outcome SqlError (List (List Value)))

mutual

/-- `rewrite_expr_subqueries` -/
def rewriteExprSubqueries : Expr Query → Outcome SqlError (Expr Query)
  | .literal v => return .literal v
  | .column i => return .column i
  | .rowId => return .rowId
  | .param i => return .param i
  | .binary op left right => do
      let left ← rewriteExprSubqueries left
      let right ← rewriteExprSubqueries right
      return .binary op left right
  | .unary op expr => do return .unary op (← rewriteExprSubqueries expr)
  | .isNull expr negated => do return .isNull (← rewriteExprSubqueries expr) negated
  | .cast expr ty => do return .cast (← rewriteExprSubqueries expr) ty
  | .like expr pattern negated => do
      let expr ← rewriteExprSubqueries expr
      let pattern ← rewriteExprSubqueries pattern
      return .like expr pattern negated
  | .inList expr list negated => do
      let expr ← rewriteExprSubqueries expr
      let list ← rewriteList list
      return .inList expr list negated
  | .function name args => do return .function name (← rewriteList args)
  | .case operand whens elseResult => do
      let operand ← rewriteOption operand
      let whens ← rewriteWhens whens
      let elseResult ← rewriteOption elseResult
      return .case operand whens elseResult
  | .scalarSubquery query => do
      let rows ← subqueryRows query
      return .literal ((rows.head?.map firstOrNull).getD .null)
  | .exists_ query negated => do
      let rows ← subqueryRows query
      return .literal (.boolean (!rows.isEmpty != negated))
  | .inSubquery expr query negated => do
      let expr ← rewriteExprSubqueries expr
      let rows ← subqueryRows query
      return .inList expr (rows.map fun row => .literal (firstOrNull row)) negated

def rewriteOption : Option (Expr Query) → Outcome SqlError (Option (Expr Query))
  | some expr => do return some (← rewriteExprSubqueries expr)
  | none => return none

def rewriteList : List (Expr Query) → Outcome SqlError (List (Expr Query))
  | [] => return []
  | item :: rest => do
      let item ← rewriteExprSubqueries item
      return item :: (← rewriteList rest)

def rewriteWhens : List (Expr Query × Expr Query) → Outcome SqlError (List (Expr Query × Expr Query))
  | [] => return []
  | (cond, result) :: rest => do
      let cond ← rewriteExprSubqueries cond
      let result ← rewriteExprSubqueries result
      return (cond, result) :: (← rewriteWhens rest)

end

/-! ## What is left -/

mutual

/-- There is no subquery in an expression. -/
def Expr.NoSubquery : Expr Query → Prop
  | .literal _ | .column _ | .rowId | .param _ => True
  | .binary _ left right => left.NoSubquery ∧ right.NoSubquery
  | .unary _ expr | .isNull expr _ | .cast expr _ => expr.NoSubquery
  | .like expr pattern _ => expr.NoSubquery ∧ pattern.NoSubquery
  | .inList expr list _ => expr.NoSubquery ∧ NoneHasSubquery list
  | .function _ args => NoneHasSubquery args
  | .case operand whens elseResult =>
      OptionHasNone operand ∧ WhensHaveNone whens ∧ OptionHasNone elseResult
  | .scalarSubquery _ | .exists_ _ _ | .inSubquery _ _ _ => False

def OptionHasNone : Option (Expr Query) → Prop
  | some expr => expr.NoSubquery
  | none => True

def NoneHasSubquery : List (Expr Query) → Prop
  | [] => True
  | item :: rest => item.NoSubquery ∧ NoneHasSubquery rest

def WhensHaveNone : List (Expr Query × Expr Query) → Prop
  | [] => True
  | (cond, result) :: rest => (cond.NoSubquery ∧ result.NoSubquery) ∧ WhensHaveNone rest

end

theorem noneHasSubquery_literals (values : List Value) :
    NoneHasSubquery (values.map fun v => (Expr.literal v : Expr Query)) := by
  induction values with
  | nil => trivial
  | cons v values ih => exact ⟨trivial, ih⟩

mutual

/-- **No subquery is left** in an expression that could be rewritten. -/
theorem rewrite_noSubquery {e made : Expr Query}
    (rewritten : rewriteExprSubqueries subqueryRows e = .ok made) : made.NoSubquery := by
  cases e with
  | literal | column | rowId | param =>
      obtain rfl := Outcome.pure_eq_ok.mp rewritten
      trivial
  | binary op left right =>
      obtain ⟨l, first, rest⟩ := Outcome.bind_eq_ok.mp rewritten
      obtain ⟨r, second, same⟩ := Outcome.bind_eq_ok.mp rest
      obtain rfl := Outcome.pure_eq_ok.mp same
      exact ⟨rewrite_noSubquery first, rewrite_noSubquery second⟩
  | like expr pattern negated =>
      obtain ⟨l, first, rest⟩ := Outcome.bind_eq_ok.mp rewritten
      obtain ⟨r, second, same⟩ := Outcome.bind_eq_ok.mp rest
      obtain rfl := Outcome.pure_eq_ok.mp same
      exact ⟨rewrite_noSubquery first, rewrite_noSubquery second⟩
  | unary _ expr | isNull expr _ | cast expr _ =>
      obtain ⟨inner, first, same⟩ := Outcome.bind_eq_ok.mp rewritten
      obtain rfl := Outcome.pure_eq_ok.mp same
      change inner.NoSubquery
      exact rewrite_noSubquery first
  | inList expr list negated =>
      obtain ⟨inner, first, rest⟩ := Outcome.bind_eq_ok.mp rewritten
      obtain ⟨items, second, same⟩ := Outcome.bind_eq_ok.mp rest
      obtain rfl := Outcome.pure_eq_ok.mp same
      exact ⟨rewrite_noSubquery first, rewriteList_noSubquery second⟩
  | function name args =>
      obtain ⟨items, first, same⟩ := Outcome.bind_eq_ok.mp rewritten
      obtain rfl := Outcome.pure_eq_ok.mp same
      exact rewriteList_noSubquery first
  | case operand whens elseResult =>
      obtain ⟨o, first, rest⟩ := Outcome.bind_eq_ok.mp rewritten
      obtain ⟨branches, second, rest⟩ := Outcome.bind_eq_ok.mp rest
      obtain ⟨otherwise, third, same⟩ := Outcome.bind_eq_ok.mp rest
      obtain rfl := Outcome.pure_eq_ok.mp same
      exact ⟨rewriteOption_noSubquery first, rewriteWhens_noSubquery second,
        rewriteOption_noSubquery third⟩
  | scalarSubquery query | exists_ query negated =>
      obtain ⟨rows, _, same⟩ := Outcome.bind_eq_ok.mp rewritten
      obtain rfl := Outcome.pure_eq_ok.mp same
      trivial
  | inSubquery expr query negated =>
      obtain ⟨inner, first, rest⟩ := Outcome.bind_eq_ok.mp rewritten
      obtain ⟨rows, _, same⟩ := Outcome.bind_eq_ok.mp rest
      obtain rfl := Outcome.pure_eq_ok.mp same
      have literals := @noneHasSubquery_literals Query (rows.map firstOrNull)
      rw [List.map_map] at literals
      exact ⟨rewrite_noSubquery first, literals⟩
termination_by structural e

theorem rewriteOption_noSubquery {e made : Option (Expr Query)}
    (rewritten : rewriteOption subqueryRows e = .ok made) : OptionHasNone made := by
  cases e with
  | none =>
      obtain rfl := Outcome.pure_eq_ok.mp rewritten
      trivial
  | some expr =>
      obtain ⟨inner, first, same⟩ := Outcome.bind_eq_ok.mp rewritten
      obtain rfl := Outcome.pure_eq_ok.mp same
      exact rewrite_noSubquery first
termination_by structural e

theorem rewriteList_noSubquery {list made : List (Expr Query)}
    (rewritten : rewriteList subqueryRows list = .ok made) : NoneHasSubquery made := by
  cases list with
  | nil =>
      obtain rfl := Outcome.pure_eq_ok.mp rewritten
      trivial
  | cons item rest =>
      obtain ⟨inner, first, later⟩ := Outcome.bind_eq_ok.mp rewritten
      obtain ⟨others, second, same⟩ := Outcome.bind_eq_ok.mp later
      obtain rfl := Outcome.pure_eq_ok.mp same
      exact ⟨rewrite_noSubquery first, rewriteList_noSubquery second⟩
termination_by structural list

theorem rewriteWhens_noSubquery {whens made : List (Expr Query × Expr Query)}
    (rewritten : rewriteWhens subqueryRows whens = .ok made) : WhensHaveNone made := by
  cases whens with
  | nil =>
      obtain rfl := Outcome.pure_eq_ok.mp rewritten
      trivial
  | cons branch rest =>
      obtain ⟨cond, result⟩ := branch
      obtain ⟨c, first, later⟩ := Outcome.bind_eq_ok.mp rewritten
      obtain ⟨r, second, later⟩ := Outcome.bind_eq_ok.mp later
      obtain ⟨others, third, same⟩ := Outcome.bind_eq_ok.mp later
      obtain rfl := Outcome.pure_eq_ok.mp same
      exact ⟨⟨rewrite_noSubquery first, rewrite_noSubquery second⟩, rewriteWhens_noSubquery third⟩
termination_by structural whens

end

end

end Squrust.Sql
