import Mathlib.Data.List.Forall2
import Squrust.Foundation.ThreeValued
import Squrust.Sql.Subqueries

/-!
# IN and NULL

`x IN (l, ...)` should be the disjunction of the equations `x = l` in three-valued
logic (`Value.memberOf`, `eval_anyEqual`). The evaluator finds a NULL at the left,
but takes a NULL in the list for a value that is not `x`. So the answer is the
right one unless it hangs on such a NULL: no value of the list is `x`, and one is
NULL (`eval_in_iff`). With NOT that row is kept, where it should be left out.
-/

set_option autoImplicit false

namespace Squrust.Sql

open Squrust.Foundation

namespace Value

/-- A truth value as a value. -/
def ofTruth : Truth → Value
  | some b => .boolean b
  | none => .null

/-- `x = l` in three-valued logic. -/
def equals (x l : Value) : Truth :=
  if x.isNull ∨ l.isNull then none else some (x.compare l == some .eq)

/-- The disjunction of the equations. -/
def memberOf (x : Value) (values : List Value) : Truth := Truth.any (values.map x.equals)

/-- What the evaluator makes of it. -/
def foundIn (x : Value) (values : List Value) : Truth :=
  if x.isNull then none else some (values.any fun l => x.compare l == some .eq)

/-- No NULL in the list bears on the answer. -/
def KnownIn (x : Value) (values : List Value) : Prop :=
  x = .null ∨ (∃ l ∈ values, x.compare l = some .eq) ∨ .null ∉ values

theorem isNull_iff {v : Value} : v.isNull = true ↔ v = .null := by
  cases v with
  | null => simp [isNull]
  | _ => simp [isNull]

theorem ofTruth_inj {a b : Truth} : ofTruth a = ofTruth b ↔ a = b := by
  cases a with
  | none => cases b <;> simp [ofTruth]
  | some value => cases b <;> simp [ofTruth]

/-- A value that is equal to one that is not NULL is not NULL. -/
theorem ne_null_of_compare {x l : Value} (present : x ≠ .null) (same : x.compare l = some .eq) :
    l ≠ .null := by
  rintro rfl
  cases x with
  | null => exact present rfl
  | _ => cases same

/-! ## The disjunction -/

theorem equals_eq_true {x l : Value} (present : x ≠ .null) :
    x.equals l = some true ↔ x.compare l = some .eq := by
  by_cases null : l = .null
  · subst null
    cases x with
    | null => exact absurd rfl present
    | _ => simp [equals, isNull, compare]
  · have both : ¬ (x.isNull = true ∨ l.isNull = true) := by
      rw [isNull_iff, isNull_iff]
      exact not_or.mpr ⟨present, null⟩
    rw [equals, if_neg both]
    simp

theorem equals_eq_none {x l : Value} : x.equals l = none ↔ x = .null ∨ l = .null := by
  rw [equals, ← isNull_iff, ← isNull_iff]
  split
  · next unknown => simp [unknown]
  · next known => simp [known]

/-- True if one of the values is the same. -/
theorem memberOf_eq_true {x : Value} {values : List Value} (present : x ≠ .null) :
    x.memberOf values = some true ↔ ∃ l ∈ values, x.compare l = some .eq := by
  simp only [memberOf, Truth.any_eq_true, List.mem_map, equals_eq_true present]

/-- Otherwise NULL if `x` or one of the values is. -/
theorem memberOf_eq_none {x : Value} {values : List Value} (nonempty : values ≠ []) :
    x.memberOf values = none ↔
      x = .null ∨ (∀ l ∈ values, x.compare l ≠ some .eq) ∧ .null ∈ values := by
  by_cases null : x = .null
  · subst null
    have unknown : ∀ l : Value, equals .null l = none := fun l => equals_eq_none.mpr (Or.inl rfl)
    obtain ⟨l, member⟩ := List.exists_mem_of_ne_nil values nonempty
    have all : memberOf .null values = none :=
      Truth.any_eq_none.mpr ⟨by simp [unknown], List.mem_map.mpr ⟨l, member, unknown l⟩⟩
    exact iff_of_true all (Or.inl rfl)
  · simp only [memberOf, Truth.any_eq_none, List.mem_map, equals_eq_true null, equals_eq_none, null,
      false_or, not_exists, not_and, exists_eq_right]

/-- The evaluator's answer is the disjunction exactly if no NULL of the list bears on it. -/
theorem foundIn_eq_memberOf_iff {x : Value} {values : List Value} (nonempty : values ≠ []) :
    x.foundIn values = x.memberOf values ↔ x.KnownIn values := by
  by_cases null : x = .null
  · subst null
    have unknown := (memberOf_eq_none (x := .null) nonempty).mpr (Or.inl rfl)
    simp [foundIn, isNull, unknown, KnownIn]
  · have present : ¬ x.isNull = true := fun isNull => null (isNull_iff.mp isNull)
    rw [foundIn, if_neg present, KnownIn]
    by_cases found : ∃ l ∈ values, x.compare l = some .eq
    · have any : (values.any fun l => x.compare l == some .eq) = true := by
        simpa using found
      rw [any, (memberOf_eq_true null).mpr found]
      simp [found]
    · have any : (values.any fun l => x.compare l == some .eq) = false := by
        simpa using found
      rw [any]
      constructor
      · intro same
        refine Or.inr (Or.inr fun member => ?_)
        have unknown := (memberOf_eq_none nonempty).mpr
          (Or.inr ⟨fun l within equal => found ⟨l, within, equal⟩, member⟩)
        rw [unknown] at same
        cases same
      · rintro (isNull | equal | noNull)
        · exact absurd isNull null
        · exact absurd equal found
        · cases result : x.memberOf values with
          | none =>
              rcases (memberOf_eq_none nonempty).mp result with isNull | ⟨_, member⟩
              · exact absurd isNull null
              · exact absurd member noNull
          | some value =>
              cases value with
              | false => rfl
              | true => exact absurd ((memberOf_eq_true null).mp result) found

end Value

section

variable {Query : Type} {builtins : Builtins} {env : Env}

/-! ## The disjunction as an expression -/

/-- `x = l OR ...` -/
def Expr.anyEqual (x : Expr Query) (list : List (Expr Query)) : Expr Query :=
  list.foldr (fun item rest => .binary .or (.binary .eq x item) rest) (.literal (.boolean false))

/-- The evaluator's `OR` is that of three-valued logic. -/
theorem evalBinary_or (a b : Truth) :
    evalBinary .or (.ofTruth a) (.ofTruth b) = .ok (.ofTruth (Truth.or3 a b)) := by
  rcases a with _ | _ | _ <;> rcases b with _ | _ | _ <;> rfl

/-- So is its `=`, on values that can be compared. -/
theorem evalBinary_eq {x l : Value} (comparable : x ≠ .null → l ≠ .null → x.compare l ≠ none) :
    evalBinary .eq x l = .ok (.ofTruth (x.equals l)) := by
  rw [evalBinary, Value.equals]
  split
  · rfl
  · next known =>
    rw [Value.isNull_iff, Value.isNull_iff] at known
    obtain ⟨left, right⟩ := not_or.mp known
    cases order : x.compare l with
    | none => exact absurd order (comparable left right)
    | some ord => cases ord <;> rfl

/-- **The disjunction is an expression of SQL**, for values that can be compared. -/
theorem eval_anyEqual {x : Expr Query} {v : Value} {list : List (Expr Query)} {values : List Value}
    (operand : eval builtins env x = .ok v)
    (items : List.Forall₂ (fun item value => eval builtins env item = .ok value) list values)
    (comparable : ∀ l ∈ values, v ≠ .null → l ≠ .null → v.compare l ≠ none) :
    eval builtins env (x.anyEqual list) = .ok (.ofTruth (v.memberOf values)) := by
  induction items with
  | nil => exact eval.eq_1 ..
  | @cons item l list values first _ ih =>
      have equation : eval builtins env (.binary .eq x item) = .ok (.ofTruth (v.equals l)) := by
        rw [eval, operand, first]
        exact evalBinary_eq (comparable l List.mem_cons_self)
      have rest := ih fun l member => comparable l (List.mem_cons_of_mem _ member)
      change eval builtins env (.binary .or (.binary .eq x item) (x.anyEqual list)) = _
      rw [eval, equation, rest]
      exact evalBinary_or _ _

/-! ## The evaluator -/

/-- A search through the list, of which only the part up to a match is evaluated. -/
theorem evalIn_eq {v : Value} {list : List (Expr Query)} {values : List Value}
    (items : List.Forall₂ (fun item value => eval builtins env item = .ok value) list values) :
    evalIn builtins env v list = .ok (values.any fun l => v.compare l == some .eq) := by
  induction items with
  | nil => rw [evalIn]; rfl
  | @cons item l list values first _ ih =>
      rw [evalIn, first, Outcome.ok_bind, List.any_cons]
      by_cases same : v.compare l = some .eq
      · rw [if_pos same, same]
        rfl
      · have other : (v.compare l == some .eq) = false := by simpa using same
        rw [if_neg same, ih, other, Bool.false_or]

theorem eval_inList {x : Expr Query} {v : Value} {list : List (Expr Query)} {values : List Value}
    (operand : eval builtins env x = .ok v)
    (items : List.Forall₂ (fun item value => eval builtins env item = .ok value) list values)
    (negated : Bool) :
    eval builtins env (.inList x list negated) =
      .ok (.ofTruth (Truth.negatedIf negated (v.foundIn values))) := by
  rw [eval, operand, Outcome.ok_bind, Value.foundIn]
  split
  · cases negated <;> rfl
  · rw [evalIn_eq items]
    cases negated with
    | false => simp [Truth.negatedIf, Value.ofTruth, pure, Except.pure, bind, Except.bind]
    | true => simp [Truth.negatedIf, Truth.not3, Value.ofTruth, pure, Except.pure, bind, Except.bind]

theorem eval_inList_iff {x : Expr Query} {v : Value} {list : List (Expr Query)} {values : List Value}
    (operand : eval builtins env x = .ok v) (nonempty : list ≠ [])
    (items : List.Forall₂ (fun item value => eval builtins env item = .ok value) list values)
    (negated : Bool) :
    eval builtins env (.inList x list negated) =
        .ok (.ofTruth (Truth.negatedIf negated (v.memberOf values))) ↔ v.KnownIn values := by
  have some_ : values ≠ [] := by
    rintro rfl
    exact nonempty (List.forall₂_nil_right_iff.mp items)
  rw [eval_inList operand items, ← Value.foundIn_eq_memberOf_iff some_, Except.ok.injEq,
    Value.ofTruth_inj, Truth.negatedIf_inj]

/-- Literals are the values they hold. -/
theorem eval_literals (values : List Value) :
    List.Forall₂ (fun item value => eval builtins env item = .ok value)
      (values.map fun v => (Expr.literal v : Expr Query)) values := by
  induction values with
  | nil => exact .nil
  | cons v values ih => exact .cons (eval.eq_1 ..) ih

end

/-- **IN is the disjunction of the equations exactly if no NULL of the list bears on it**, for a
list of expressions and for a subquery that was replaced by its rows. -/
theorem eval_in_iff {Query : Type} (builtins : Builtins) (env : Env) (x : Expr Query) (v : Value)
    (negated : Bool) (operand : eval builtins env x = .ok v) :
    (∀ (list : List (Expr Query)) (values : List Value), list ≠ [] →
      List.Forall₂ (fun item value => eval builtins env item = .ok value) list values →
      (eval builtins env (.inList x list negated) =
          .ok (.ofTruth (Truth.negatedIf negated (v.memberOf values))) ↔ v.KnownIn values)) ∧
    ∀ (subqueryRows : Query → Outcome SqlError (List (List Value))) (e made : Expr Query)
      (query : Query) (rows : List (List Value)), rows ≠ [] →
      rewriteExprSubqueries subqueryRows e = .ok x → subqueryRows query = .ok rows →
      rewriteExprSubqueries subqueryRows (.inSubquery e query negated) = .ok made →
      (eval builtins env made =
          .ok (.ofTruth (Truth.negatedIf negated (v.memberOf (rows.map firstOrNull)))) ↔
        v.KnownIn (rows.map firstOrNull)) := by
  refine ⟨fun list values nonempty items => eval_inList_iff operand nonempty items negated, ?_⟩
  intro subqueryRows e made query rows nonempty rewritten answered folded
  have list : made = .inList x ((rows.map firstOrNull).map fun v => .literal v) negated := by
    rw [rewriteExprSubqueries, rewritten, Outcome.ok_bind, answered, Outcome.ok_bind] at folded
    rw [List.map_map]
    exact (Outcome.pure_eq_ok.mp folded).symm
  subst list
  exact eval_inList_iff operand (by simpa using nonempty) (eval_literals _) negated

/-- One is in a list of one and NULL, and NULL with what a subquery answered is NULL. -/
theorem eval_in_known :
    eval Builtins.bare ⟨[], 0, []⟩
        (.inList (.literal (.integer 1)) [.literal .null, .literal (.integer 1)] true : Expr Unit) =
      .ok (.boolean false) ∧
    eval Builtins.bare ⟨[], 0, []⟩
        (.inList (.literal (.integer 1)) [.literal (.integer 2), .literal (.integer 1)] true : Expr Unit) =
      .ok (.boolean false) := by
  have both := @eval_in_iff Unit Builtins.bare ⟨[], 0, []⟩ (.literal (.integer 1)) (.integer 1)
    true (by rw [eval])
  refine ⟨(both.1 [.literal .null, .literal (.integer 1)] [.null, .integer 1] (by simp)
    (eval_literals [.null, .integer 1])).mpr (Or.inr (Or.inl ⟨.integer 1, by simp, by decide +kernel⟩)), ?_⟩
  exact (both.2 (fun _ => .ok [[.integer 2], [.integer 1]]) (.literal (.integer 1)) _ ()
    [[.integer 2], [.integer 1]] (by simp) (by rw [rewriteExprSubqueries]; rfl) rfl
    (by rw [rewriteExprSubqueries, rewriteExprSubqueries]; rfl)).mpr (Or.inr (Or.inr (by decide)))

/-- Two is not in a list of one and NULL, and NOT IN says so: it should be unknown. -/
theorem eval_in_null :
    eval Builtins.bare ⟨[], 0, []⟩
        (.inList (.literal (.integer 2)) [.literal (.integer 1), .literal .null] false : Expr Unit) ≠
      .ok (.ofTruth ((Value.integer 2).memberOf [.integer 1, .null])) ∧
    eval Builtins.bare ⟨[], 0, []⟩
        (.inList (.literal (.integer 2)) [.literal (.integer 1), .literal .null] true : Expr Unit) =
      .ok (.boolean true) ∧
    Truth.not3 ((Value.integer 2).memberOf [.integer 1, .null]) = none := by
  decide +kernel

end Squrust.Sql
