import Squrust.Sql.Aggregate

/-!
# Constant folding

The optimizer replaces `+`, `-`, `*` and the unary operators on literals by their
value, which it computes on its own. It goes down through binary and unary
operators only (`Expr.parts`).

Folding keeps the value of every expression but one: `NOT NULL`, which is NULL and
is folded to true. An expression is folded right, with everything the optimizer
visits in it, exactly if it does not negate a NULL literal (`fold_preserves_iff`),
and a plan of such expressions is built to the same executors.
-/

set_option autoImplicit false

namespace Squrust.Sql

open Squrust.Foundation

variable {Query : Type}

/-! ## The optimizer -/

def evalConstBinary (op : BinOp) (a b : Value) : Option Value :=
  match op with
  | .add | .sub | .mul => do
      let x ← a.asF64
      let y ← b.asF64
      let r :=
        match op with
        | .add => x + y
        | .sub => x - y
        | _ => x * y
      if a.isInteger ∧ b.isInteger ∧ r.fract.isZero then some (.integer r.toInt64) else some (.real r)
  | _ => none

def evalConstUnary (op : UnOp) (v : Value) : Outcome SqlError (Option Value) :=
  match op with
  | .neg =>
      match v with
      | .integer i => do return some (.integer (← negI64 i))
      | .real r => .ok (some (.real (-r)))
      | _ => .ok none
  | .not => .ok (some (.boolean !v.isTruthy))

/-- The value of the literal, if it is one. -/
def Expr.asLiteral : Expr Query → Option Value
  | .literal v => some v
  | _ => none

/-- Constant-fold an expression where both operands are literals. -/
def fold : Expr Query → Outcome SqlError (Expr Query)
  | .binary op left right => do
      let l ← fold left
      let r ← fold right
      match l.asLiteral, r.asLiteral with
      | some a, some b =>
          match evalConstBinary op a b with
          | some v => return .literal v
          | none => return .binary op l r
      | _, _ => return .binary op l r
  | .unary op expr => do
      let e ← fold expr
      match e.asLiteral with
      | some v =>
          match ← evalConstUnary op v with
          | some folded => return .literal folded
          | none => return .unary op e
      | none => return .unary op e
  | other => return other

def foldCol : OutputCol (Expr Query) → Outcome SqlError (OutputCol (Expr Query))
  | .expr e => do return .expr (← fold e)
  | other => return other

def foldKey (key : SortKey (Expr Query)) : Outcome SqlError (SortKey (Expr Query)) := do
  return ⟨← fold key.expr, key.asc⟩

/-- Fold a condition, if there is one. -/
def foldOption : Option (Expr Query) → Outcome SqlError (Option (Expr Query))
  | some e => do return some (← fold e)
  | none => return none

/-- `optimize` -/
def foldPlan : LogicalPlan Query → Outcome SqlError (LogicalPlan Query)
  | .filter input predicate => do return .filter (← foldPlan input) (← fold predicate)
  | .project input exprs columns => do
      return .project (← foldPlan input) (← exprs.mapM fold) columns
  | .nestedLoopJoin left right predicate leftOuter columns => do
      return .nestedLoopJoin (← foldPlan left) (← foldPlan right) (← foldOption predicate) leftOuter
        columns
  | .aggregate input groupBy aggs output columns baseLen having => do
      return .aggregate (← foldPlan input) (← groupBy.mapM fold) aggs (← output.mapM foldCol) columns
        baseLen (← foldOption having)
  | .sort input keys => do return .sort (← foldPlan input) (← keys.mapM foldKey)
  | .limit input limit offset => do return .limit (← foldPlan input) limit offset
  | .distinct input => do return .distinct (← foldPlan input)
  | leaf => return leaf

/-! ## What is folded -/

namespace Expr

/-- The expression and what the optimizer visits in it. -/
def parts : Expr Query → List (Expr Query)
  | .binary op left right => .binary op left right :: (parts left ++ parts right)
  | .unary op expr => .unary op expr :: parts expr
  | other => [other]

/-- No NULL literal is negated with NOT where the optimizer comes by. -/
def plain : Expr Query → Prop
  | .binary _ left right => plain left ∧ plain right
  | .unary .neg expr => plain expr
  | .unary .not expr => plain expr ∧ expr.asLiteral ≠ some .null
  | _ => True

theorem eq_literal {e : Expr Query} {v : Value} (literal : e.asLiteral = some v) : e = .literal v := by
  cases e with
  | literal w =>
      obtain rfl := Option.some.inj literal
      rfl
  | _ => cases literal

end Expr

/-! ## Folding keeps the value -/

theorem Value.not_isNull_of_asF64 {v : Value} {x : Float64} (number : v.asF64 = some x) :
    v.isNull = false := by
  cases v with
  | null => cases number
  | _ => rfl

/-- A folded operation is on numbers. Its value is made of a double, and is that of
the evaluator. -/
theorem evalConstBinary_eq_some {op : BinOp} {a b v : Value}
    (folded : evalConstBinary op a b = some v) :
    (∃ r, v = numeric (a.isInteger && b.isInteger) r) ∧ evalBinary op a b = .ok v := by
  have numbers : ∃ x y, a.asF64 = some x ∧ b.asF64 = some y := by
    cases left : a.asF64 with
    | none => cases op <;> simp [evalConstBinary, left] at folded
    | some x =>
        cases right : b.asF64 with
        | none => cases op <;> simp [evalConstBinary, left, right] at folded
        | some y => exact ⟨x, y, rfl, rfl⟩
  obtain ⟨x, y, left, right⟩ := numbers
  have notNull : ¬ (a.isNull = true ∨ b.isNull = true) := by
    simp [Value.not_isNull_of_asF64 left, Value.not_isNull_of_asF64 right]
  -- On the three folded operators both compute the same double and make a value of it.
  have same (r : Float64) (value : (if a.isInteger ∧ b.isInteger ∧ r.fract.isZero then
      some (Value.integer r.toInt64) else some (.real r)) = some v) :
      numeric (a.isInteger && b.isInteger) r = v := by
    simp only [numeric, Bool.and_eq_true, and_assoc]
    split at value
    · next whole => rw [if_pos whole]; exact Option.some.inj value
    · next broken => rw [if_neg broken]; exact Option.some.inj value
  cases op with
  | add =>
      simp only [evalConstBinary, left, right, Option.bind_eq_bind, Option.bind_some] at folded
      refine ⟨⟨x + y, (same _ folded).symm⟩, ?_⟩
      simp only [evalBinary, evalArithmetic, if_neg notNull, left, right, Outcome.orErr,
        Outcome.ok_bind, same _ folded]
  | sub =>
      simp only [evalConstBinary, left, right, Option.bind_eq_bind, Option.bind_some] at folded
      refine ⟨⟨x - y, (same _ folded).symm⟩, ?_⟩
      simp only [evalBinary, evalArithmetic, if_neg notNull, left, right, Outcome.orErr,
        Outcome.ok_bind, same _ folded]
  | mul =>
      simp only [evalConstBinary, left, right, Option.bind_eq_bind, Option.bind_some] at folded
      refine ⟨⟨x * y, (same _ folded).symm⟩, ?_⟩
      simp only [evalBinary, evalArithmetic, if_neg notNull, left, right, Outcome.orErr,
        Outcome.ok_bind, same _ folded]
  | _ => cases folded

/-- So is that of a negation, unless it is of NULL. -/
theorem evalUnary_of_const {op : UnOp} {a v : Value} (folded : evalConstUnary op a = .ok (some v))
    (notNull : op = .not → a ≠ .null) : evalUnary op a = .ok v := by
  cases op with
  | not =>
      have present : a.isNull = false := by
        cases a with
        | null => exact absurd rfl (notNull rfl)
        | _ => rfl
      obtain rfl := Option.some.inj (Except.ok.inj folded)
      change Except.ok (if a.isNull then Value.null else .boolean !a.isTruthy) = _
      rw [present]
      rfl
  | neg =>
      cases a with
      | integer i =>
          obtain ⟨negated, run, same⟩ := Outcome.bind_eq_ok.mp folded
          obtain rfl := Option.some.inj (Except.ok.inj same)
          exact Outcome.bind_eq_ok.mpr ⟨negated, run, rfl⟩
      | real r =>
          obtain rfl := Option.some.inj (Except.ok.inj folded)
          rfl
      | _ => cases folded

/-- Where folding a negation fails, the evaluator fails. -/
theorem evalUnary_of_const_error {op : UnOp} {a v : Value} {fault : Fault SqlError}
    (failed : evalConstUnary op a = .error fault) : evalUnary op a ≠ .ok v := by
  intro returned
  cases op with
  | not => cases failed
  | neg =>
      cases a with
      | integer i =>
          obtain ⟨negated, run, _⟩ := Outcome.bind_eq_ok.mp returned
          have also : evalConstUnary .neg (.integer i) = .ok (some (.integer negated)) :=
            Outcome.bind_eq_ok.mpr ⟨negated, run, rfl⟩
          rw [also] at failed
          cases failed
      | _ => cases failed

theorem evalConstBinary_ne_null {op : BinOp} {a b : Value} : evalConstBinary op a b ≠ some .null := by
  intro folded
  obtain ⟨⟨r, value⟩, _⟩ := evalConstBinary_eq_some folded
  rw [numeric] at value
  split at value
  · cases value
  · cases value

theorem evalConstUnary_ne_null {op : UnOp} {a : Value} : evalConstUnary op a ≠ .ok (some .null) := by
  intro folded
  cases op with
  | not => exact nomatch Option.some.inj (Except.ok.inj folded)
  | neg =>
      cases a with
      | integer i =>
          obtain ⟨negated, _, same⟩ := Outcome.bind_eq_ok.mp folded
          exact nomatch Option.some.inj (Except.ok.inj same)
      | real r => exact nomatch Option.some.inj (Except.ok.inj folded)
      | _ => cases folded

/-- A folded operand is the NULL literal only if it was one before. -/
theorem asLiteral_of_fold {e f : Expr Query} (folded : fold e = .ok f)
    (null : f.asLiteral = some .null) : e.asLiteral = some .null := by
  fun_induction fold e generalizing f with
  | case1 op left right _ _ =>
      obtain ⟨l, _, rest⟩ := Outcome.bind_eq_ok.mp folded
      obtain ⟨r, _, rest⟩ := Outcome.bind_eq_ok.mp rest
      split at rest
      · split at rest
        · next const =>
          obtain rfl := Except.ok.inj rest
          exact absurd const (by rw [Option.some.inj null]; exact evalConstBinary_ne_null)
        · obtain rfl := Except.ok.inj rest
          cases null
      · obtain rfl := Except.ok.inj rest
        cases null
  | case2 op expr _ =>
      obtain ⟨e, _, rest⟩ := Outcome.bind_eq_ok.mp folded
      split at rest
      · obtain ⟨const, run, rest⟩ := Outcome.bind_eq_ok.mp rest
        split at rest
        · obtain rfl := Except.ok.inj rest
          rw [Option.some.inj null] at run
          exact absurd run evalConstUnary_ne_null
        · obtain rfl := Except.ok.inj rest
          cases null
      · obtain rfl := Except.ok.inj rest
        cases null
  | case3 e notBinary notUnary =>
      obtain rfl := Except.ok.inj folded
      exact null

section

variable {builtins : Builtins}

/-- **Folding keeps the value** of an expression that does not negate NULL. -/
theorem eval_fold {e f : Expr Query} (plain : e.plain) (folded : fold e = .ok f) (env : Env) :
    eval builtins env f = eval builtins env e := by
  fun_induction fold e generalizing f with
  | case1 op left right ihLeft ihRight =>
      obtain ⟨l, foldedLeft, rest⟩ := Outcome.bind_eq_ok.mp folded
      obtain ⟨r, foldedRight, rest⟩ := Outcome.bind_eq_ok.mp rest
      have sameLeft := ihLeft plain.1 foldedLeft
      have sameRight := ihRight plain.2 foldedRight
      have unfolded : eval builtins env (.binary op l r) = eval builtins env (.binary op left right) := by
        rw [eval, eval, sameLeft, sameRight]
      cases literalLeft : l.asLiteral with
      | none =>
          simp only [literalLeft, Outcome.pure_eq_ok] at rest
          rw [← rest, unfolded]
      | some a =>
          cases literalRight : r.asLiteral with
          | none =>
              simp only [literalLeft, literalRight, Outcome.pure_eq_ok] at rest
              rw [← rest, unfolded]
          | some b =>
              simp only [literalLeft, literalRight] at rest
              cases const : evalConstBinary op a b with
              | none =>
                  simp only [const, Outcome.pure_eq_ok] at rest
                  rw [← rest, unfolded]
              | some v =>
                  simp only [const, Outcome.pure_eq_ok] at rest
                  rw [← rest, ← unfolded, Expr.eq_literal literalLeft, Expr.eq_literal literalRight]
                  exact (evalConstBinary_eq_some const).2.symm
  | case2 op expr ih =>
      obtain ⟨e, foldedExpr, rest⟩ := Outcome.bind_eq_ok.mp folded
      have plainExpr : expr.plain := by
        cases op with
        | neg => exact plain
        | not => exact plain.1
      have unfolded : eval builtins env (.unary op e) = eval builtins env (.unary op expr) := by
        rw [eval, eval, ih plainExpr foldedExpr]
      cases literal : e.asLiteral with
      | none =>
          simp only [literal, Outcome.pure_eq_ok] at rest
          rw [← rest, unfolded]
      | some a =>
          simp only [literal] at rest
          obtain ⟨const, run, rest⟩ := Outcome.bind_eq_ok.mp rest
          cases const with
          | none =>
              simp only [Outcome.pure_eq_ok] at rest
              rw [← rest, unfolded]
          | some v =>
              simp only [Outcome.pure_eq_ok] at rest
              have notNull : op = .not → a ≠ .null := by
                rintro rfl rfl
                exact plain.2 (asLiteral_of_fold foldedExpr literal)
              rw [← rest, ← unfolded, Expr.eq_literal literal]
              exact (evalUnary_of_const run notNull).symm
  | case3 e notBinary notUnary =>
      rw [Outcome.pure_eq_ok.mp folded]

/-- Where folding fails, the expression has no value on any row. -/
theorem eval_of_fold_error {e : Expr Query} {fault : Fault SqlError} (plain : e.plain)
    (failed : fold e = .error fault) (env : Env) (v : Value) : eval builtins env e ≠ .ok v := by
  fun_induction fold e generalizing fault v with
  | case1 op left right ihLeft ihRight =>
      intro returned
      obtain ⟨a, evalLeft, returned⟩ := Outcome.bind_eq_ok.mp returned
      obtain ⟨b, evalRight, _⟩ := Outcome.bind_eq_ok.mp returned
      cases foldedLeft : fold left with
      | error fault => exact ihLeft plain.1 foldedLeft a evalLeft
      | ok l =>
          cases foldedRight : fold right with
          | error fault => exact ihRight plain.2 foldedRight b evalRight
          | ok r =>
              simp only [foldedLeft, foldedRight, Outcome.ok_bind] at failed
              split at failed
              · split at failed
                · cases failed
                · cases failed
              · cases failed
  | case2 op expr ih =>
      intro returned
      have plainExpr : expr.plain := by
        cases op with
        | neg => exact plain
        | not => exact plain.1
      obtain ⟨a, evalExpr, result⟩ := Outcome.bind_eq_ok.mp returned
      cases foldedExpr : fold expr with
      | error fault => exact ih plainExpr foldedExpr a evalExpr
      | ok e =>
          simp only [foldedExpr, Outcome.ok_bind] at failed
          cases literal : e.asLiteral with
          | none =>
              simp only [literal] at failed
              cases failed
          | some b =>
              have same := @eval_fold _ builtins _ _ plainExpr foldedExpr env
              rw [Expr.eq_literal literal, evalExpr] at same
              obtain rfl := Except.ok.inj same
              simp only [literal] at failed
              cases const : evalConstUnary op b with
              | error fault => exact evalUnary_of_const_error const result
              | ok folded =>
                  rw [const, Outcome.ok_bind] at failed
                  cases folded with
                  | none => cases failed
                  | some v => cases failed
  | case3 e notBinary notUnary => cases failed

/-- The optimizer's expression has the values of the expression. -/
def Preserved (builtins : Builtins) (e : Expr Query) : Prop :=
  ∀ env v, (∃ f, fold e = .ok f ∧ eval builtins env f = .ok v) ↔ eval builtins env e = .ok v

theorem preserved_of_plain {e : Expr Query} (plain : e.plain) : Preserved builtins e := by
  intro env v
  constructor
  · rintro ⟨f, folded, value⟩
    rwa [eval_fold plain folded env] at value
  · intro value
    cases folded : fold e with
    | error fault => exact absurd value (eval_of_fold_error plain folded env v)
    | ok f => exact ⟨f, rfl, (eval_fold plain folded env).trans value⟩

/-- `NOT NULL` is folded to true. -/
theorem not_preserved_notNull : ¬ Preserved builtins (.unary .not (.literal .null) : Expr Query) := by
  intro preserved
  have value := (preserved ⟨[], 0, []⟩ (.boolean true)).mp ⟨.literal (.boolean true), rfl, rfl⟩
  exact nomatch Except.ok.inj value

theorem plain_of_parts {e : Expr Query} (preserved : ∀ part ∈ e.parts, Preserved builtins part) :
    e.plain := by
  fun_induction Expr.parts e with
  | case1 op left right ihLeft ihRight =>
      exact ⟨ihLeft fun part member => preserved part
          (List.mem_cons_of_mem _ (List.mem_append_left _ member)),
        ihRight fun part member => preserved part
          (List.mem_cons_of_mem _ (List.mem_append_right _ member))⟩
  | case2 op expr ih =>
      have inner := ih fun part member => preserved part (List.mem_cons_of_mem _ member)
      cases op with
      | neg => exact inner
      | not =>
          refine ⟨inner, fun null => ?_⟩
          rw [Expr.eq_literal null] at preserved
          exact not_preserved_notNull (preserved _ List.mem_cons_self)
  | case3 e notBinary notUnary =>
      cases e with
      | binary op left right => exact (notBinary op left right rfl).elim
      | unary op expr => exact (notUnary op expr rfl).elim
      | _ => trivial

theorem plain_parts {e : Expr Query} (plain : e.plain) : ∀ part ∈ e.parts, part.plain := by
  fun_induction Expr.parts e with
  | case1 op left right ihLeft ihRight =>
      intro part member
      rcases List.mem_cons.mp member with rfl | inner
      · exact plain
      · rcases List.mem_append.mp inner with inLeft | inRight
        · exact ihLeft plain.1 part inLeft
        · exact ihRight plain.2 part inRight
  | case2 op expr ih =>
      intro part member
      rcases List.mem_cons.mp member with rfl | inner
      · exact plain
      · cases op with
        | neg => exact ih plain part inner
        | not => exact ih plain.1 part inner
  | case3 e notBinary notUnary =>
      intro part member
      obtain rfl := List.mem_singleton.mp member
      exact plain

/-! ## Plans -/

theorem evalRow_fold {params : List Value} {e f : Expr Query} (plain : e.plain)
    (folded : fold e = .ok f) : evalRow builtins params f = evalRow builtins params e := by
  funext row
  exact eval_fold plain folded _

end

/-- The expressions of an output column. -/
def OutputCol.exprs : OutputCol (Expr Query) → List (Expr Query)
  | .expr e => [e]
  | .agg _ => []

/-- The expressions of a plan that are folded. Set operations are left as they are. -/
def LogicalPlan.folded : LogicalPlan Query → List (Expr Query)
  | .filter input predicate => folded input ++ [predicate]
  | .project input exprs _ => folded input ++ exprs
  | .nestedLoopJoin left right predicate _ _ => folded left ++ folded right ++ predicate.toList
  | .aggregate input groupBy _ output _ _ having =>
      folded input ++ groupBy ++ output.flatMap OutputCol.exprs ++ having.toList
  | .sort input keys => folded input ++ keys.map SortKey.expr
  | .limit input _ _ | .distinct input => folded input
  | _ => []

section

variable {σ : Type} [Core.PageSource σ] {builtins : Builtins} {params : List Value}

theorem map_evalRow_foldOption {having having' : Option (Expr Query)}
    (plain : ∀ e ∈ having.toList, e.plain) (run : foldOption having = .ok having') :
    having'.map (evalRow builtins params) = having.map (evalRow builtins params) := by
  cases having with
  | none =>
      obtain rfl := Except.ok.inj run
      rfl
  | some e =>
      obtain ⟨f, folded, rest⟩ := Outcome.bind_eq_ok.mp run
      obtain rfl := Except.ok.inj rest
      rw [Option.map_some, Option.map_some, evalRow_fold (plain e List.mem_cons_self) folded]

theorem map_evalRow_foldCol {col col' : OutputCol (Expr Query)} (plain : ∀ e ∈ col.exprs, e.plain)
    (run : foldCol col = .ok col') :
    col'.map (evalRow builtins params) = col.map (evalRow builtins params) := by
  cases col with
  | agg i =>
      obtain rfl := Except.ok.inj run
      rfl
  | expr e =>
      obtain ⟨f, folded, rest⟩ := Outcome.bind_eq_ok.mp run
      obtain rfl := Except.ok.inj rest
      rw [OutputCol.map, OutputCol.map, evalRow_fold (plain e List.mem_cons_self) folded]

theorem map_evalRow_foldKey {key key' : SortKey (Expr Query)} (plain : key.expr.plain)
    (run : foldKey key = .ok key') :
    key'.map (evalRow builtins params) = key.map (evalRow builtins params) := by
  obtain ⟨f, folded, rest⟩ := Outcome.bind_eq_ok.mp run
  obtain rfl := Except.ok.inj rest
  rw [SortKey.map, SortKey.map, evalRow_fold plain folded]

/-- A folded plan is built to the executors of the plan. -/
theorem build_foldPlan {plan optimized : LogicalPlan Query} (plain : ∀ e ∈ plan.folded, e.plain)
    (run : foldPlan plan = .ok optimized) :
    (build builtins params optimized : Executor σ) = build builtins params plan := by
  induction plan generalizing optimized with
  | dual =>
      obtain rfl := Except.ok.inj run
      rfl
  | scan =>
      obtain rfl := Except.ok.inj run
      rfl
  | setOp =>
      obtain rfl := Except.ok.inj run
      rfl
  | filter input predicate ih =>
      obtain ⟨input', foldedInput, rest⟩ := Outcome.bind_eq_ok.mp run
      obtain ⟨predicate', foldedPredicate, rest⟩ := Outcome.bind_eq_ok.mp rest
      obtain rfl := Except.ok.inj rest
      rw [build, build, ih (fun e member => plain e (List.mem_append_left _ member)) foldedInput,
        evalRow_fold (plain _ (List.mem_append_right _ List.mem_cons_self)) foldedPredicate]
  | project input exprs columns ih =>
      obtain ⟨input', foldedInput, rest⟩ := Outcome.bind_eq_ok.mp run
      obtain ⟨exprs', foldedExprs, rest⟩ := Outcome.bind_eq_ok.mp rest
      obtain rfl := Except.ok.inj rest
      have same : exprs'.map (evalRow builtins params) = exprs.map (evalRow builtins params) :=
        Outcome.map_eq_of_mapM (fun e member f folded =>
          evalRow_fold (plain e (List.mem_append_right _ member)) folded) foldedExprs
      rw [build, build, ih (fun e member => plain e (List.mem_append_left _ member)) foldedInput, same]
  | nestedLoopJoin left right predicate leftOuter columns ihLeft ihRight =>
      obtain ⟨left', foldedLeft, rest⟩ := Outcome.bind_eq_ok.mp run
      obtain ⟨right', foldedRight, rest⟩ := Outcome.bind_eq_ok.mp rest
      obtain ⟨predicate', foldedPredicate, rest⟩ := Outcome.bind_eq_ok.mp rest
      obtain rfl := Except.ok.inj rest
      simp only [LogicalPlan.folded, List.mem_append] at plain
      rw [build, build, ihLeft (fun e member => plain e (.inl (.inl member))) foldedLeft,
        ihRight (fun e member => plain e (.inl (.inr member))) foldedRight,
        map_evalRow_foldOption (fun e member => plain e (.inr member)) foldedPredicate]
  | aggregate input groupBy aggs output columns baseLen having ih =>
      obtain ⟨input', foldedInput, rest⟩ := Outcome.bind_eq_ok.mp run
      obtain ⟨groupBy', foldedGroupBy, rest⟩ := Outcome.bind_eq_ok.mp rest
      obtain ⟨output', foldedOutput, rest⟩ := Outcome.bind_eq_ok.mp rest
      obtain ⟨having', foldedHaving, rest⟩ := Outcome.bind_eq_ok.mp rest
      obtain rfl := Except.ok.inj rest
      simp only [LogicalPlan.folded, List.mem_append] at plain
      have sameKeys : groupBy'.map (evalRow builtins params) = groupBy.map (evalRow builtins params) :=
        Outcome.map_eq_of_mapM (fun e member f folded =>
          evalRow_fold (plain e (.inl (.inl (.inr member)))) folded) foldedGroupBy
      have sameOutput : output'.map (OutputCol.map (evalRow builtins params)) =
          output.map (OutputCol.map (evalRow builtins params)) :=
        Outcome.map_eq_of_mapM (fun col member col' folded => map_evalRow_foldCol
          (fun e inCol => plain e (.inl (.inr (List.mem_flatMap.mpr ⟨col, member, inCol⟩)))) folded)
          foldedOutput
      rw [build, build, ih (fun e member => plain e (.inl (.inl (.inl member)))) foldedInput, sameKeys,
        sameOutput, map_evalRow_foldOption (fun e member => plain e (.inr member)) foldedHaving]
  | sort input keys ih =>
      obtain ⟨input', foldedInput, rest⟩ := Outcome.bind_eq_ok.mp run
      obtain ⟨keys', foldedKeys, rest⟩ := Outcome.bind_eq_ok.mp rest
      obtain rfl := Except.ok.inj rest
      have same : keys'.map (SortKey.map (evalRow builtins params)) =
          keys.map (SortKey.map (evalRow builtins params)) :=
        Outcome.map_eq_of_mapM (fun key member key' folded => map_evalRow_foldKey
          (plain _ (List.mem_append_right _ (List.mem_map_of_mem member))) folded) foldedKeys
      rw [build, build, ih (fun e member => plain e (List.mem_append_left _ member)) foldedInput, same]
  | limit input limit offset ih =>
      obtain ⟨input', foldedInput, rest⟩ := Outcome.bind_eq_ok.mp run
      obtain rfl := Except.ok.inj rest
      rw [build, build, ih plain foldedInput]
  | distinct input ih =>
      obtain ⟨input', foldedInput, rest⟩ := Outcome.bind_eq_ok.mp run
      obtain rfl := Except.ok.inj rest
      rw [build, build, ih plain foldedInput]

theorem foldOption_error {having : Option (Expr Query)} {fault : Fault SqlError}
    (failed : foldOption having = .error fault) :
    ∃ e ∈ having.toList, fold e = .error fault := by
  cases having with
  | none => cases failed
  | some e =>
      rcases Outcome.bind_eq_error.mp failed with here | ⟨_, _, absurd⟩
      · exact ⟨e, List.mem_cons_self, here⟩
      · cases absurd

/-- When a plan cannot be folded, one of its expressions cannot. -/
theorem foldPlan_error {plan : LogicalPlan Query} {fault : Fault SqlError}
    (failed : foldPlan plan = .error fault) : ∃ e ∈ plan.folded, fold e = .error fault := by
  induction plan with
  | dual => cases failed
  | scan => cases failed
  | setOp => cases failed
  | filter input predicate ih =>
      rcases Outcome.bind_eq_error.mp failed with inInput | ⟨_, _, rest⟩
      · obtain ⟨e, member, failed⟩ := ih inInput
        exact ⟨e, List.mem_append_left _ member, failed⟩
      rcases Outcome.bind_eq_error.mp rest with inPredicate | ⟨_, _, absurd⟩
      · exact ⟨predicate, List.mem_append_right _ List.mem_cons_self, inPredicate⟩
      · cases absurd
  | project input exprs columns ih =>
      rcases Outcome.bind_eq_error.mp failed with inInput | ⟨_, _, rest⟩
      · obtain ⟨e, member, failed⟩ := ih inInput
        exact ⟨e, List.mem_append_left _ member, failed⟩
      rcases Outcome.bind_eq_error.mp rest with inExprs | ⟨_, _, absurd⟩
      · obtain ⟨e, member, failed⟩ := Outcome.mapM_eq_error inExprs
        exact ⟨e, List.mem_append_right _ member, failed⟩
      · cases absurd
  | nestedLoopJoin left right predicate leftOuter columns ihLeft ihRight =>
      simp only [LogicalPlan.folded, List.mem_append]
      rcases Outcome.bind_eq_error.mp failed with inLeft | ⟨_, _, rest⟩
      · obtain ⟨e, member, failed⟩ := ihLeft inLeft
        exact ⟨e, .inl (.inl member), failed⟩
      rcases Outcome.bind_eq_error.mp rest with inRight | ⟨_, _, rest⟩
      · obtain ⟨e, member, failed⟩ := ihRight inRight
        exact ⟨e, .inl (.inr member), failed⟩
      rcases Outcome.bind_eq_error.mp rest with inPredicate | ⟨_, _, absurd⟩
      · obtain ⟨e, member, failed⟩ := foldOption_error inPredicate
        exact ⟨e, .inr member, failed⟩
      · cases absurd
  | aggregate input groupBy aggs output columns baseLen having ih =>
      simp only [LogicalPlan.folded, List.mem_append, List.mem_flatMap]
      rcases Outcome.bind_eq_error.mp failed with inInput | ⟨_, _, rest⟩
      · obtain ⟨e, member, failed⟩ := ih inInput
        exact ⟨e, .inl (.inl (.inl member)), failed⟩
      rcases Outcome.bind_eq_error.mp rest with inKeys | ⟨_, _, rest⟩
      · obtain ⟨e, member, failed⟩ := Outcome.mapM_eq_error inKeys
        exact ⟨e, .inl (.inl (.inr member)), failed⟩
      rcases Outcome.bind_eq_error.mp rest with inOutput | ⟨_, _, rest⟩
      · obtain ⟨col, member, failed⟩ := Outcome.mapM_eq_error inOutput
        cases col with
        | agg i => cases failed
        | expr e =>
            rcases Outcome.bind_eq_error.mp failed with here | ⟨_, _, absurd⟩
            · exact ⟨e, .inl (.inr ⟨_, member, List.mem_cons_self⟩), here⟩
            · cases absurd
      rcases Outcome.bind_eq_error.mp rest with inHaving | ⟨_, _, absurd⟩
      · obtain ⟨e, member, failed⟩ := foldOption_error inHaving
        exact ⟨e, .inr member, failed⟩
      · cases absurd
  | sort input keys ih =>
      rcases Outcome.bind_eq_error.mp failed with inInput | ⟨_, _, rest⟩
      · obtain ⟨e, member, failed⟩ := ih inInput
        exact ⟨e, List.mem_append_left _ member, failed⟩
      rcases Outcome.bind_eq_error.mp rest with inKeys | ⟨_, _, absurd⟩
      · obtain ⟨key, member, failed⟩ := Outcome.mapM_eq_error inKeys
        rcases Outcome.bind_eq_error.mp failed with here | ⟨_, _, absurd⟩
        · exact ⟨_, List.mem_append_right _ (List.mem_map_of_mem member), here⟩
        · cases absurd
      · cases absurd
  | limit input limit offset ih =>
      rcases Outcome.bind_eq_error.mp failed with inInput | ⟨_, _, absurd⟩
      · exact ih inInput
      · cases absurd
  | distinct input ih =>
      rcases Outcome.bind_eq_error.mp failed with inInput | ⟨_, _, absurd⟩
      · exact ih inInput
      · cases absurd

end

/-- **What folding preserves.** Every expression that the optimizer visits in an
expression has the same values folded as it has unfolded exactly if no NULL literal
is negated there. A plan of such expressions is optimized to a plan with the same
executors, unless one of its expressions has no value on any row. -/
theorem fold_preserves_iff (builtins : Builtins) :
    (∀ e : Expr Query, (∀ part ∈ e.parts, Preserved builtins part) ↔ e.plain) ∧
    ∀ {σ : Type} [Core.PageSource σ] (params : List Value) (plan : LogicalPlan Query),
      (∀ e ∈ plan.folded, e.plain) →
      (∃ optimized, foldPlan plan = .ok optimized ∧
        (build builtins params optimized : Executor σ) = build builtins params plan) ∨
      ∃ e ∈ plan.folded, ∀ env v, eval builtins env e ≠ .ok v := by
  refine ⟨fun e => ⟨plain_of_parts, fun plain part member =>
    preserved_of_plain (plain_parts plain part member)⟩, ?_⟩
  intro σ _ params plan plain
  cases run : foldPlan plan with
  | ok optimized => exact .inl ⟨optimized, rfl, build_foldPlan plain run⟩
  | error fault =>
      obtain ⟨e, member, failed⟩ := foldPlan_error run
      exact .inr ⟨e, member, eval_of_fold_error (plain e member) failed⟩

/-- `NOT NULL` is NULL, but is folded to true. -/
theorem fold_notNull :
    fold (.unary .not (.literal .null) : Expr Empty) = .ok (.literal (.boolean true)) ∧
    ∀ builtins env, eval builtins env (.unary .not (.literal .null) : Expr Empty) = .ok .null ∧
      ¬ Preserved builtins (.unary .not (.literal .null) : Expr Empty) :=
  ⟨rfl, fun _ _ => ⟨rfl, not_preserved_notNull⟩⟩

end Squrust.Sql
