import Squrust.Sql.Planner
import Squrust.Sql.Subqueries

/-!
# Expressions within a row

An expression is within rows of some width when it reads no column behind them
(`Expr.Within`). What a name resolves to in a scope is within the rows of that scope
(`resolveExpr_within`), and folding constants and replacing subqueries keep it so.
-/

set_option autoImplicit false

namespace Squrust.Sql

open Squrust.Foundation

variable {Query : Type}

mutual

/-- An expression reads columns of rows of this width only. -/
def Expr.Within (width : Nat) : Expr Query → Prop
  | .literal _ | .rowId | .param _ => True
  | .column i => i < width
  | .binary _ left right => left.Within width ∧ right.Within width
  | .unary _ expr | .isNull expr _ | .cast expr _ => expr.Within width
  | .like expr pattern _ => expr.Within width ∧ pattern.Within width
  | .inList expr list _ => expr.Within width ∧ ListWithin width list
  | .function _ args => ListWithin width args
  | .case operand whens elseResult =>
      OptionWithin width operand ∧ WhensWithin width whens ∧ OptionWithin width elseResult
  | .scalarSubquery _ | .exists_ _ _ => True
  | .inSubquery expr _ _ => expr.Within width

def OptionWithin (width : Nat) : Option (Expr Query) → Prop
  | some expr => expr.Within width
  | none => True

def ListWithin (width : Nat) : List (Expr Query) → Prop
  | [] => True
  | item :: rest => item.Within width ∧ ListWithin width rest

def WhensWithin (width : Nat) : List (Expr Query × Expr Query) → Prop
  | [] => True
  | (cond, result) :: rest => (cond.Within width ∧ result.Within width) ∧ WhensWithin width rest

end

theorem optionWithin_iff {width : Nat} {e : Option (Expr Query)} :
    OptionWithin width e ↔ ∀ expr ∈ e, expr.Within width := by
  cases e with
  | none => simp [OptionWithin]
  | some expr => simp [OptionWithin]

theorem listWithin_iff {width : Nat} {list : List (Expr Query)} :
    ListWithin width list ↔ ∀ item ∈ list, item.Within width := by
  induction list with
  | nil => simp [ListWithin]
  | cons item rest ih => simp [ListWithin, ih]

/-! ## Wider rows -/

section

variable {width wider : Nat} (more : width ≤ wider)
include more

mutual

theorem Expr.Within.mono {e : Expr Query} (within : e.Within width) : e.Within wider := by
  cases e with
  | literal | rowId | param | scalarSubquery | exists_ => trivial
  | column i => exact lt_of_lt_of_le (show i < width from within) more
  | binary op left right => exact ⟨within.1.mono, within.2.mono⟩
  | like expr pattern negated => exact ⟨within.1.mono, within.2.mono⟩
  | unary _ expr | isNull expr _ | cast expr _ | inSubquery expr _ _ =>
      exact Expr.Within.mono (e := expr) within
  | inList expr list negated => exact ⟨within.1.mono, listWithin_mono within.2⟩
  | function name args => exact listWithin_mono within
  | case operand whens elseResult =>
      exact ⟨optionWithin_mono within.1, whensWithin_mono within.2.1, optionWithin_mono within.2.2⟩
termination_by structural e

theorem optionWithin_mono {e : Option (Expr Query)} (within : OptionWithin width e) :
    OptionWithin wider e := by
  cases e with
  | none => trivial
  | some expr => exact Expr.Within.mono (e := expr) within
termination_by structural e

theorem listWithin_mono {list : List (Expr Query)} (within : ListWithin width list) :
    ListWithin wider list := by
  cases list with
  | nil => trivial
  | cons item rest => exact ⟨within.1.mono, listWithin_mono within.2⟩
termination_by structural list

theorem whensWithin_mono {whens : List (Expr Query × Expr Query)} (within : WhensWithin width whens) :
    WhensWithin wider whens := by
  cases whens with
  | nil => trivial
  | cons branch rest =>
      obtain ⟨cond, result⟩ := branch
      exact ⟨⟨within.1.1.mono, within.1.2.mono⟩, whensWithin_mono within.2⟩
termination_by structural whens

end

end

/-! ## Resolution -/

/-- The column that is found is one of those there are. -/
theorem Scope.resolveFrom_lt {table : Option Text} {name : Text} {columns : List ScopeCol}
    {i bound k : Nat} {found : Option Nat} (before : ∀ f ∈ found, f < bound)
    (enough : i + columns.length ≤ bound) (run : resolveFrom table name columns i found = .ok k) :
    k < bound := by
  induction columns generalizing i found with
  | nil => exact before k (Option.mem_def.mpr (Outcome.orErr_eq_ok.mp run))
  | cons c rest ih =>
      rw [List.length_cons] at enough
      rw [resolveFrom] at run
      split at run
      · split at run
        · cases run
        · refine ih (fun f here => ?_) (by omega) run
          obtain rfl := Option.mem_some_iff.mp here
          omega
      · exact ih before (by omega) run

theorem Scope.resolve_lt {scope : Scope} {table : Option Text} {name : Text} {k : Nat}
    (run : scope.resolve table name = .ok k) : k < scope.length :=
  resolveFrom_lt (fun f none => by cases none) (by omega) run

theorem mapUnop_within {width : Nat} {op : UnaryOperator} {expr made : Expr Query}
    (within : expr.Within width) (run : mapUnop op expr = .ok made) : made.Within width := by
  cases op with
  | other debug => cases run
  | not | minus | plus =>
      obtain rfl := Except.ok.inj run
      exact within

theorem betweenExpr_within {width : Nat} {a low high : Expr Query} {negated : Bool}
    (ofA : a.Within width) (ofLow : low.Within width) (ofHigh : high.Within width) :
    (betweenExpr a low high negated).Within width := by
  cases negated with
  | true => exact ⟨⟨ofA, ofLow⟩, ⟨ofA, ofHigh⟩⟩
  | false => exact ⟨⟨ofA, ofLow⟩, ⟨ofA, ofHigh⟩⟩

section

variable {scope : Scope}

mutual

/-- What an expression resolves to reads columns of the scope only. -/
theorem resolveExpr_within {e : SqlExpr Query} {made : Expr Query} {n m : Nat}
    (run : resolveExpr scope e n = .ok made m) : made.Within scope.length := by
  cases e with
  | identifier id =>
      rw [resolveExpr] at run
      split at run
      · obtain ⟨rfl, _⟩ := Exec.pure_eq_ok.mp run
        trivial
      · obtain ⟨i, _, found, rest⟩ := Exec.bind_eq_ok.mp run
        obtain ⟨rfl, _⟩ := Exec.pure_eq_ok.mp rest
        exact Scope.resolve_lt (Exec.lift_eq_ok.mp found).1
  | compoundIdentifier parts =>
      match parts with
      | [table, name] =>
          rw [resolveExpr] at run
          obtain ⟨i, _, found, rest⟩ := Exec.bind_eq_ok.mp run
          obtain ⟨rfl, _⟩ := Exec.pure_eq_ok.mp rest
          exact Scope.resolve_lt (Exec.lift_eq_ok.mp found).1
      | [] | [_] | _ :: _ :: _ :: _ => exact absurd run (by simp [resolveExpr])
  | value v =>
      cases v with
      | placeholder p =>
          obtain ⟨i, _, _, rest⟩ := Exec.bind_eq_ok.mp run
          obtain ⟨rfl, _⟩ := Exec.pure_eq_ok.mp rest
          trivial
      | _ =>
          rw [resolveExpr] at run
          · obtain ⟨v, _, _, rest⟩ := Exec.bind_eq_ok.mp run
            obtain ⟨rfl, _⟩ := Exec.pure_eq_ok.mp rest
            trivial
          · nofun
  | nested inner => exact resolveExpr_within (e := inner) run
  | binaryOp left op right =>
      obtain ⟨l, _, first, rest⟩ := Exec.bind_eq_ok.mp run
      obtain ⟨r, _, second, rest⟩ := Exec.bind_eq_ok.mp rest
      obtain ⟨op', _, _, rest⟩ := Exec.bind_eq_ok.mp rest
      obtain ⟨rfl, _⟩ := Exec.pure_eq_ok.mp rest
      exact ⟨resolveExpr_within first, resolveExpr_within second⟩
  | unaryOp op expr =>
      obtain ⟨inner, _, first, rest⟩ := Exec.bind_eq_ok.mp run
      exact mapUnop_within (resolveExpr_within first) (Exec.lift_eq_ok.mp rest).1
  | isNull expr | isNotNull expr | cast expr _ =>
      obtain ⟨inner, _, first, rest⟩ := Exec.bind_eq_ok.mp run
      obtain ⟨rfl, _⟩ := Exec.pure_eq_ok.mp rest
      change inner.Within scope.length
      exact resolveExpr_within first
  | inSubquery expr query negated =>
      obtain ⟨inner, _, first, rest⟩ := Exec.bind_eq_ok.mp run
      obtain ⟨rfl, _⟩ := Exec.pure_eq_ok.mp rest
      change inner.Within scope.length
      exact resolveExpr_within first
  | ceil expr | floor expr =>
      obtain ⟨inner, _, first, rest⟩ := Exec.bind_eq_ok.mp run
      obtain ⟨rfl, _⟩ := Exec.pure_eq_ok.mp rest
      exact ⟨resolveExpr_within first, trivial⟩
  | like negated expr pattern =>
      obtain ⟨l, _, first, rest⟩ := Exec.bind_eq_ok.mp run
      obtain ⟨r, _, second, rest⟩ := Exec.bind_eq_ok.mp rest
      obtain ⟨rfl, _⟩ := Exec.pure_eq_ok.mp rest
      exact ⟨resolveExpr_within first, resolveExpr_within second⟩
  | inList expr list negated =>
      obtain ⟨inner, _, first, rest⟩ := Exec.bind_eq_ok.mp run
      obtain ⟨items, _, second, rest⟩ := Exec.bind_eq_ok.mp rest
      obtain ⟨rfl, _⟩ := Exec.pure_eq_ok.mp rest
      exact ⟨resolveExpr_within first, resolveList_within second⟩
  | subquery query | exists_ query _ =>
      obtain ⟨rfl, _⟩ := Exec.pure_eq_ok.mp run
      trivial
  | between expr negated low high =>
      obtain ⟨a, _, first, rest⟩ := Exec.bind_eq_ok.mp run
      obtain ⟨lo, _, second, rest⟩ := Exec.bind_eq_ok.mp rest
      obtain ⟨hi, _, third, rest⟩ := Exec.bind_eq_ok.mp rest
      obtain ⟨rfl, _⟩ := Exec.pure_eq_ok.mp rest
      exact betweenExpr_within (resolveExpr_within first) (resolveExpr_within second)
        (resolveExpr_within third)
  | function name distinct args =>
      obtain ⟨items, _, first, rest⟩ := Exec.bind_eq_ok.mp run
      obtain ⟨rfl, _⟩ := Exec.pure_eq_ok.mp rest
      exact resolveArgs_within first
  | trim expr trimWhere trimWhat trimCharacters =>
      match trimWhat, trimCharacters with
      | some what, _ =>
          obtain ⟨inner, _, first, rest⟩ := Exec.bind_eq_ok.mp run
          obtain ⟨cut, _, second, rest⟩ := Exec.bind_eq_ok.mp rest
          obtain ⟨rfl, _⟩ := Exec.pure_eq_ok.mp rest
          exact ⟨resolveExpr_within first, resolveExpr_within second, trivial⟩
      | none, chars :: _ =>
          obtain ⟨inner, _, first, rest⟩ := Exec.bind_eq_ok.mp run
          obtain ⟨cut, _, second, rest⟩ := Exec.bind_eq_ok.mp rest
          obtain ⟨rfl, _⟩ := Exec.pure_eq_ok.mp rest
          exact ⟨resolveExpr_within first, resolveExpr_within second, trivial⟩
      | none, [] =>
          obtain ⟨inner, _, first, rest⟩ := Exec.bind_eq_ok.mp run
          obtain ⟨rfl, _⟩ := Exec.pure_eq_ok.mp rest
          exact ⟨resolveExpr_within first, trivial⟩
  | case operand whens elseResult =>
      obtain ⟨o, _, first, rest⟩ := Exec.bind_eq_ok.mp run
      obtain ⟨branches, _, second, rest⟩ := Exec.bind_eq_ok.mp rest
      obtain ⟨otherwise, _, third, rest⟩ := Exec.bind_eq_ok.mp rest
      obtain ⟨rfl, _⟩ := Exec.pure_eq_ok.mp rest
      exact ⟨resolveOption_within first, resolveWhens_within second, resolveOption_within third⟩
  | substring expr substringFrom substringFor =>
      obtain ⟨inner, _, first, rest⟩ := Exec.bind_eq_ok.mp run
      obtain ⟨start, _, second, rest⟩ := Exec.bind_eq_ok.mp rest
      obtain ⟨count, _, third, rest⟩ := Exec.bind_eq_ok.mp rest
      obtain ⟨rfl, _⟩ := Exec.pure_eq_ok.mp rest
      refine listWithin_iff.mpr fun item member => ?_
      rcases List.mem_cons.mp member with rfl | later
      · exact resolveExpr_within first
      · rcases List.mem_append.mp later with inStart | inCount
        · exact optionWithin_iff.mp (resolveOption_within second) item (Option.mem_toList.mp inStart)
        · exact optionWithin_iff.mp (resolveOption_within third) item (Option.mem_toList.mp inCount)
  | other display => exact absurd run (by simp [resolveExpr])
termination_by structural e

theorem resolveOption_within {e : Option (SqlExpr Query)} {made : Option (Expr Query)} {n m : Nat}
    (run : resolveOption scope e n = .ok made m) : OptionWithin scope.length made := by
  cases e with
  | none =>
      obtain ⟨rfl, _⟩ := Exec.pure_eq_ok.mp run
      trivial
  | some expr =>
      obtain ⟨inner, _, first, rest⟩ := Exec.bind_eq_ok.mp run
      obtain ⟨rfl, _⟩ := Exec.pure_eq_ok.mp rest
      exact resolveExpr_within first
termination_by structural e

theorem resolveList_within {list : List (SqlExpr Query)} {made : List (Expr Query)} {n m : Nat}
    (run : resolveList scope list n = .ok made m) : ListWithin scope.length made := by
  cases list with
  | nil =>
      obtain ⟨rfl, _⟩ := Exec.pure_eq_ok.mp run
      trivial
  | cons item rest =>
      obtain ⟨inner, _, first, later⟩ := Exec.bind_eq_ok.mp run
      obtain ⟨others, _, second, later⟩ := Exec.bind_eq_ok.mp later
      obtain ⟨rfl, _⟩ := Exec.pure_eq_ok.mp later
      exact ⟨resolveExpr_within first, resolveList_within second⟩
termination_by structural list

theorem resolveArgs_within {args : List (FunctionArg (SqlExpr Query))} {made : List (Expr Query)} {n m : Nat}
    (run : resolveArgs scope args n = .ok made m) : ListWithin scope.length made := by
  match args with
  | [] =>
      obtain ⟨rfl, _⟩ := Exec.pure_eq_ok.mp run
      trivial
  | .unnamed item :: rest | .named item :: rest =>
      obtain ⟨inner, _, first, later⟩ := Exec.bind_eq_ok.mp run
      obtain ⟨others, _, second, later⟩ := Exec.bind_eq_ok.mp later
      obtain ⟨rfl, _⟩ := Exec.pure_eq_ok.mp later
      exact ⟨resolveExpr_within first, resolveArgs_within second⟩
  | .wildcard :: rest | .other :: rest => exact absurd run (by simp [resolveArgs])
termination_by structural args

theorem resolveWhens_within {whens : List (SqlExpr Query × SqlExpr Query)}
    {made : List (Expr Query × Expr Query)} {n m : Nat} (run : resolveWhens scope whens n = .ok made m) :
    WhensWithin scope.length made := by
  cases whens with
  | nil =>
      obtain ⟨rfl, _⟩ := Exec.pure_eq_ok.mp run
      trivial
  | cons branch rest =>
      obtain ⟨cond, result⟩ := branch
      obtain ⟨c, _, first, later⟩ := Exec.bind_eq_ok.mp run
      obtain ⟨r, _, second, later⟩ := Exec.bind_eq_ok.mp later
      obtain ⟨others, _, third, later⟩ := Exec.bind_eq_ok.mp later
      obtain ⟨rfl, _⟩ := Exec.pure_eq_ok.mp later
      exact ⟨⟨resolveExpr_within first, resolveExpr_within second⟩, resolveWhens_within third⟩
termination_by structural whens

end

end

/-! ## What is done to resolved expressions -/

theorem Expr.within_of_asLiteral {width : Nat} {e : Expr Query} {v : Value}
    (literal : e.asLiteral = some v) : e.Within width := by
  rw [Expr.eq_literal literal]
  trivial

/-- Folding keeps the columns an expression is within. -/
theorem fold_within_iff {width : Nat} {e made : Expr Query} (run : fold e = .ok made) :
    made.Within width ↔ e.Within width := by
  fun_induction fold e generalizing made with
  | case1 op left right ihLeft ihRight =>
      obtain ⟨l, foldedLeft, rest⟩ := Outcome.bind_eq_ok.mp run
      obtain ⟨r, foldedRight, rest⟩ := Outcome.bind_eq_ok.mp rest
      have unfolded : (Expr.binary op l r).Within width ↔ (Expr.binary op left right).Within width :=
        and_congr (ihLeft foldedLeft) (ihRight foldedRight)
      split at rest
      · next a b literalLeft literalRight =>
        have constant : (Expr.binary op left right).Within width := unfolded.mp
          ⟨Expr.within_of_asLiteral literalLeft, Expr.within_of_asLiteral literalRight⟩
        split at rest
        · obtain rfl := Except.ok.inj rest
          exact ⟨fun _ => constant, fun _ => trivial⟩
        · obtain rfl := Except.ok.inj rest
          exact unfolded
      · obtain rfl := Except.ok.inj rest
        exact unfolded
  | case2 op expr ih =>
      obtain ⟨inner, folded, rest⟩ := Outcome.bind_eq_ok.mp run
      have inside := ih folded
      have unfolded : (Expr.unary op inner).Within width ↔ (Expr.unary op expr).Within width := inside
      split at rest
      · next v literal =>
        obtain ⟨const, _, rest⟩ := Outcome.bind_eq_ok.mp rest
        split at rest
        · obtain rfl := Except.ok.inj rest
          exact ⟨fun _ => inside.mp (Expr.within_of_asLiteral literal), fun _ => trivial⟩
        · obtain rfl := Except.ok.inj rest
          exact unfolded
      · obtain rfl := Except.ok.inj rest
        exact unfolded
  | case3 e notBinary notUnary =>
      obtain rfl := Except.ok.inj run
      rfl

theorem listWithin_literals {width : Nat} (values : List Value) :
    ListWithin width (values.map fun v => (Expr.literal v : Expr Query)) := by
  induction values with
  | nil => trivial
  | cons v values ih => exact ⟨trivial, ih⟩

section

variable {width : Nat} {subqueryRows : Query → Outcome SqlError (List (List Value))}

mutual

/-- Replacing subqueries keeps the columns an expression is within. -/
theorem rewrite_within {e made : Expr Query} (within : e.Within width)
    (run : rewriteExprSubqueries subqueryRows e = .ok made) : made.Within width := by
  cases e with
  | literal | rowId | param =>
      obtain rfl := Outcome.pure_eq_ok.mp run
      trivial
  | column i =>
      obtain rfl := Outcome.pure_eq_ok.mp run
      exact within
  | binary op left right =>
      obtain ⟨l, first, rest⟩ := Outcome.bind_eq_ok.mp run
      obtain ⟨r, second, same⟩ := Outcome.bind_eq_ok.mp rest
      obtain rfl := Outcome.pure_eq_ok.mp same
      exact ⟨rewrite_within within.1 first, rewrite_within within.2 second⟩
  | like expr pattern negated =>
      obtain ⟨l, first, rest⟩ := Outcome.bind_eq_ok.mp run
      obtain ⟨r, second, same⟩ := Outcome.bind_eq_ok.mp rest
      obtain rfl := Outcome.pure_eq_ok.mp same
      exact ⟨rewrite_within within.1 first, rewrite_within within.2 second⟩
  | unary _ expr | isNull expr _ | cast expr _ =>
      obtain ⟨inner, first, same⟩ := Outcome.bind_eq_ok.mp run
      obtain rfl := Outcome.pure_eq_ok.mp same
      change inner.Within width
      exact rewrite_within (e := expr) within first
  | inList expr list negated =>
      obtain ⟨inner, first, rest⟩ := Outcome.bind_eq_ok.mp run
      obtain ⟨items, second, same⟩ := Outcome.bind_eq_ok.mp rest
      obtain rfl := Outcome.pure_eq_ok.mp same
      exact ⟨rewrite_within within.1 first, rewriteList_within within.2 second⟩
  | function name args =>
      obtain ⟨items, first, same⟩ := Outcome.bind_eq_ok.mp run
      obtain rfl := Outcome.pure_eq_ok.mp same
      exact rewriteList_within within first
  | case operand whens elseResult =>
      obtain ⟨o, first, rest⟩ := Outcome.bind_eq_ok.mp run
      obtain ⟨branches, second, rest⟩ := Outcome.bind_eq_ok.mp rest
      obtain ⟨otherwise, third, same⟩ := Outcome.bind_eq_ok.mp rest
      obtain rfl := Outcome.pure_eq_ok.mp same
      exact ⟨rewriteOption_within within.1 first, rewriteWhens_within within.2.1 second,
        rewriteOption_within within.2.2 third⟩
  | scalarSubquery query | exists_ query negated =>
      obtain ⟨rows, _, same⟩ := Outcome.bind_eq_ok.mp run
      obtain rfl := Outcome.pure_eq_ok.mp same
      trivial
  | inSubquery expr query negated =>
      obtain ⟨inner, first, rest⟩ := Outcome.bind_eq_ok.mp run
      obtain ⟨rows, _, same⟩ := Outcome.bind_eq_ok.mp rest
      obtain rfl := Outcome.pure_eq_ok.mp same
      have literals : ListWithin width ((rows.map firstOrNull).map fun v => (.literal v : Expr Query)) :=
        listWithin_literals _
      rw [List.map_map] at literals
      exact ⟨rewrite_within (e := expr) within first, literals⟩
termination_by structural e

theorem rewriteOption_within {e made : Option (Expr Query)} (within : OptionWithin width e)
    (run : rewriteOption subqueryRows e = .ok made) : OptionWithin width made := by
  cases e with
  | none =>
      obtain rfl := Outcome.pure_eq_ok.mp run
      trivial
  | some expr =>
      obtain ⟨inner, first, same⟩ := Outcome.bind_eq_ok.mp run
      obtain rfl := Outcome.pure_eq_ok.mp same
      exact rewrite_within (e := expr) within first
termination_by structural e

theorem rewriteList_within {list made : List (Expr Query)} (within : ListWithin width list)
    (run : rewriteList subqueryRows list = .ok made) : ListWithin width made := by
  cases list with
  | nil =>
      obtain rfl := Outcome.pure_eq_ok.mp run
      trivial
  | cons item rest =>
      obtain ⟨inner, first, later⟩ := Outcome.bind_eq_ok.mp run
      obtain ⟨others, second, same⟩ := Outcome.bind_eq_ok.mp later
      obtain rfl := Outcome.pure_eq_ok.mp same
      exact ⟨rewrite_within within.1 first, rewriteList_within within.2 second⟩
termination_by structural list

theorem rewriteWhens_within {whens made : List (Expr Query × Expr Query)} (within : WhensWithin width whens)
    (run : rewriteWhens subqueryRows whens = .ok made) : WhensWithin width made := by
  cases whens with
  | nil =>
      obtain rfl := Outcome.pure_eq_ok.mp run
      trivial
  | cons branch rest =>
      obtain ⟨cond, result⟩ := branch
      obtain ⟨c, first, later⟩ := Outcome.bind_eq_ok.mp run
      obtain ⟨r, second, later⟩ := Outcome.bind_eq_ok.mp later
      obtain ⟨others, third, same⟩ := Outcome.bind_eq_ok.mp later
      obtain rfl := Outcome.pure_eq_ok.mp same
      exact ⟨⟨rewrite_within within.1.1 first, rewrite_within within.1.2 second⟩,
        rewriteWhens_within within.2 third⟩
termination_by structural whens

end

end

end Squrust.Sql
