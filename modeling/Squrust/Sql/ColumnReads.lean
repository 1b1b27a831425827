import Squrust.Sql.Eval

/-!
# What an expression reads

An expression reads a row only at the columns it mentions (`eval_agree`). One that has
a value on a row has the same value on a row that goes on (`eval_append`).
-/

set_option autoImplicit false

namespace Squrust.Sql

open Squrust.Foundation

variable {Query : Type}

mutual

/-- The columns an expression mentions. -/
def Expr.columns : Expr Query → List Nat
  | .literal _ | .rowId | .param _ => []
  | .column i => [i]
  | .binary _ left right => left.columns ++ right.columns
  | .unary _ expr | .isNull expr _ | .cast expr _ => expr.columns
  | .like expr pattern _ => expr.columns ++ pattern.columns
  | .inList expr list _ => expr.columns ++ columnsOfList list
  | .function _ args => columnsOfList args
  | .case operand whens elseResult =>
      columnsOfOption operand ++ columnsOfWhens whens ++ columnsOfOption elseResult
  | .scalarSubquery _ | .exists_ _ _ | .inSubquery _ _ _ => []

def columnsOfOption : Option (Expr Query) → List Nat
  | some expr => expr.columns
  | none => []

def columnsOfList : List (Expr Query) → List Nat
  | [] => []
  | item :: rest => item.columns ++ columnsOfList rest

def columnsOfWhens : List (Expr Query × Expr Query) → List Nat
  | [] => []
  | (cond, result) :: rest => cond.columns ++ result.columns ++ columnsOfWhens rest

end

section

variable {builtins : Builtins} {rowid : Int64} {params values values' : List Value}

mutual

/-- An expression has the same value on rows that agree on the columns it mentions. -/
theorem eval_agree {e : Expr Query} (agree : ∀ c ∈ e.columns, values[c]? = values'[c]?) :
    eval builtins ⟨values, rowid, params⟩ e = eval builtins ⟨values', rowid, params⟩ e := by
  cases e with
  | literal | rowId | param => rfl
  | column i =>
      rw [eval, eval]
      simp only [agree i (by simp [Expr.columns])]
  | binary op left right =>
      simp only [Expr.columns, List.forall_mem_append] at agree
      rw [eval, eval, eval_agree agree.1, eval_agree agree.2]
  | like expr pattern negated =>
      simp only [Expr.columns, List.forall_mem_append] at agree
      rw [eval, eval, eval_agree agree.1, eval_agree agree.2]
  | unary _ expr | isNull expr _ | cast expr _ =>
      simp only [Expr.columns] at agree
      rw [eval, eval, eval_agree agree]
  | inList expr list negated =>
      simp only [Expr.columns, List.forall_mem_append] at agree
      have search := fun v => evalIn_agree v agree.2
      simp only [eval, eval_agree agree.1, search]
  | function name args =>
      simp only [Expr.columns] at agree
      rw [eval, eval, evalArgs_agree agree]
  | case operand whens elseResult =>
      simp only [Expr.columns, List.forall_mem_append] at agree
      have branches := fun operand => evalWhens_agree operand agree.1.2
      cases operand with
      | none =>
          cases elseResult with
          | none => simp only [eval, branches]
          | some otherwise => simp only [eval, branches, eval_agree agree.2]
      | some operand =>
          cases elseResult with
          | none => simp only [eval, branches, eval_agree agree.1.1]
          | some otherwise => simp only [eval, branches, eval_agree agree.1.1, eval_agree agree.2]
  | scalarSubquery | exists_ | inSubquery => rfl
termination_by structural e

theorem evalArgs_agree {args : List (Expr Query)}
    (agree : ∀ c ∈ columnsOfList args, values[c]? = values'[c]?) :
    evalArgs builtins ⟨values, rowid, params⟩ args = evalArgs builtins ⟨values', rowid, params⟩ args := by
  cases args with
  | nil => rfl
  | cons arg rest =>
      simp only [columnsOfList, List.forall_mem_append] at agree
      rw [evalArgs, evalArgs, eval_agree agree.1, evalArgs_agree agree.2]
termination_by structural args

theorem evalIn_agree {list : List (Expr Query)} (v : Value)
    (agree : ∀ c ∈ columnsOfList list, values[c]? = values'[c]?) :
    evalIn builtins ⟨values, rowid, params⟩ v list = evalIn builtins ⟨values', rowid, params⟩ v list := by
  cases list with
  | nil => rfl
  | cons item rest =>
      simp only [columnsOfList, List.forall_mem_append] at agree
      rw [evalIn, evalIn, eval_agree agree.1, evalIn_agree v agree.2]
termination_by structural list

theorem evalWhens_agree {whens : List (Expr Query × Expr Query)} (operand : Option Value)
    (agree : ∀ c ∈ columnsOfWhens whens, values[c]? = values'[c]?) :
    evalWhens builtins ⟨values, rowid, params⟩ operand whens =
      evalWhens builtins ⟨values', rowid, params⟩ operand whens := by
  cases whens with
  | nil => rfl
  | cons branch rest =>
      obtain ⟨cond, result⟩ := branch
      simp only [columnsOfWhens, List.forall_mem_append] at agree
      rw [evalWhens, evalWhens, eval_agree agree.1.1, eval_agree agree.1.2,
        evalWhens_agree operand agree.2]
termination_by structural whens

end

/-! ## Rows that go on -/

variable {more : List Value}

mutual

/-- A value of an expression on a row is its value on the row with more columns behind. -/
theorem eval_append {e : Expr Query} {v : Value}
    (value : eval builtins ⟨values, rowid, params⟩ e = .ok v) :
    eval builtins ⟨values ++ more, rowid, params⟩ e = .ok v := by
  cases e with
  | literal | rowId | param => exact value
  | column i =>
      rw [eval] at value ⊢
      obtain found := Outcome.orErr_eq_ok.mp value
      obtain ⟨within, _⟩ := List.getElem?_eq_some_iff.mp found
      exact Outcome.orErr_eq_ok.mpr ((List.getElem?_append_left within).trans found)
  | unary op expr =>
      rw [eval] at value ⊢
      obtain ⟨operand, inner, result⟩ := Outcome.bind_eq_ok.mp value
      rw [eval_append inner]
      exact result
  | isNull expr negated =>
      rw [eval] at value ⊢
      obtain ⟨operand, inner, result⟩ := Outcome.bind_eq_ok.mp value
      rw [eval_append inner]
      exact result
  | cast expr ty =>
      rw [eval] at value ⊢
      obtain ⟨operand, inner, result⟩ := Outcome.bind_eq_ok.mp value
      rw [eval_append inner]
      exact result
  | binary op left right =>
      rw [eval] at value ⊢
      obtain ⟨l, inLeft, rest⟩ := Outcome.bind_eq_ok.mp value
      obtain ⟨r, inRight, result⟩ := Outcome.bind_eq_ok.mp rest
      rw [eval_append inLeft, eval_append inRight]
      exact result
  | like expr pattern negated =>
      rw [eval] at value ⊢
      obtain ⟨text, inText, rest⟩ := Outcome.bind_eq_ok.mp value
      obtain ⟨shape, inPattern, result⟩ := Outcome.bind_eq_ok.mp rest
      rw [eval_append inText, eval_append inPattern]
      exact result
  | inList expr list negated =>
      rw [eval] at value ⊢
      obtain ⟨operand, inner, rest⟩ := Outcome.bind_eq_ok.mp value
      rw [eval_append inner, Outcome.ok_bind]
      split at rest
      · next isNull => rwa [if_pos isNull]
      · next notNull =>
        rw [if_neg notNull]
        obtain ⟨found, search, result⟩ := Outcome.bind_eq_ok.mp rest
        rw [evalIn_append search]
        exact result
  | function name args =>
      rw [eval] at value ⊢
      obtain ⟨operands, inner, result⟩ := Outcome.bind_eq_ok.mp value
      rw [evalArgs_append inner]
      exact result
  | case operand whens elseResult =>
      cases operand with
      | none =>
          cases elseResult with
          | none =>
              simp only [eval] at value ⊢
              obtain ⟨matched, branches, rest⟩ := Outcome.bind_eq_ok.mp value
              rw [evalWhens_append branches]
              exact rest
          | some otherwise =>
              simp only [eval] at value ⊢
              obtain ⟨matched, branches, rest⟩ := Outcome.bind_eq_ok.mp value
              rw [evalWhens_append branches, Outcome.ok_bind]
              cases matched with
              | some result => exact rest
              | none => exact eval_append rest
      | some operand =>
          cases elseResult with
          | none =>
              simp only [eval] at value ⊢
              obtain ⟨subject, inner, found⟩ := Outcome.bind_eq_ok.mp value
              obtain ⟨matched, branches, rest⟩ := Outcome.bind_eq_ok.mp found
              rw [eval_append inner, Outcome.ok_bind, evalWhens_append branches]
              exact rest
          | some otherwise =>
              simp only [eval] at value ⊢
              obtain ⟨subject, inner, found⟩ := Outcome.bind_eq_ok.mp value
              obtain ⟨matched, branches, rest⟩ := Outcome.bind_eq_ok.mp found
              rw [eval_append inner, Outcome.ok_bind, evalWhens_append branches, Outcome.ok_bind]
              cases matched with
              | some result => exact rest
              | none => exact eval_append rest
  | scalarSubquery | exists_ | inSubquery => exact value
termination_by structural e

theorem evalArgs_append {args : List (Expr Query)} {operands : List Value}
    (value : evalArgs builtins ⟨values, rowid, params⟩ args = .ok operands) :
    evalArgs builtins ⟨values ++ more, rowid, params⟩ args = .ok operands := by
  cases args with
  | nil => exact value
  | cons arg rest =>
      rw [evalArgs] at value ⊢
      obtain ⟨first, inFirst, later⟩ := Outcome.bind_eq_ok.mp value
      obtain ⟨others, inOthers, result⟩ := Outcome.bind_eq_ok.mp later
      rw [eval_append inFirst, Outcome.ok_bind, evalArgs_append inOthers]
      exact result
termination_by structural args

theorem evalIn_append {list : List (Expr Query)} {v : Value} {found : Bool}
    (value : evalIn builtins ⟨values, rowid, params⟩ v list = .ok found) :
    evalIn builtins ⟨values ++ more, rowid, params⟩ v list = .ok found := by
  cases list with
  | nil => exact value
  | cons item rest =>
      rw [evalIn] at value ⊢
      obtain ⟨first, inFirst, later⟩ := Outcome.bind_eq_ok.mp value
      rw [eval_append inFirst, Outcome.ok_bind]
      split at later
      · next same => rwa [if_pos same]
      · next other =>
        rw [if_neg other]
        exact evalIn_append later
termination_by structural list

theorem evalWhens_append {whens : List (Expr Query × Expr Query)} {operand matched : Option Value}
    (value : evalWhens builtins ⟨values, rowid, params⟩ operand whens = .ok matched) :
    evalWhens builtins ⟨values ++ more, rowid, params⟩ operand whens = .ok matched := by
  cases whens with
  | nil => exact value
  | cons branch rest =>
      obtain ⟨cond, result⟩ := branch
      rw [evalWhens] at value ⊢
      obtain ⟨first, inFirst, later⟩ := Outcome.bind_eq_ok.mp value
      rw [eval_append inFirst, Outcome.ok_bind]
      have step : ∀ taken : Bool,
          (if taken = true then do
              let given ← eval builtins ⟨values, rowid, params⟩ result
              pure (some given)
            else evalWhens builtins ⟨values, rowid, params⟩ operand rest) = .ok matched →
          (if taken = true then do
              let given ← eval builtins ⟨values ++ more, rowid, params⟩ result
              pure (some given)
            else evalWhens builtins ⟨values ++ more, rowid, params⟩ operand rest) = .ok matched := by
        intro taken later
        cases taken with
        | true =>
            obtain ⟨given, inResult, answer⟩ := Outcome.bind_eq_ok.mp later
            rw [if_pos rfl, eval_append inResult]
            exact answer
        | false => exact evalWhens_append later
      exact step _ later
termination_by structural whens

end

end

end Squrust.Sql
