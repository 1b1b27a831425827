import Squrust.Foundation.WholeDoubles
import Squrust.Sql.Optimizer

/-!
# Arithmetic on integers

Integers should be added, subtracted, multiplied and divided exactly where the result
is an integer in range, and never panic. The code turns them into doubles and back, so
that the operands and the result are rounded to 53 digits, and cut off at the bounds
(`onDoubles`). For each operator the results are right exactly if this rounding does
not show (`integer_arithmetic_iff`), as it does not up to 2^53 (`RoundsRight.of_small`).
The smallest integer, and what is rounded to it, cannot be divided by -1, and it has no
negation.
-/

set_option autoImplicit false

namespace Squrust.Sql

open Squrust.Foundation

open Float64 (IsWhole finiteBound)

/-! ## What the results should be -/

/-- The exact result, if there is one. -/
def exactResult (op : BinOp) (x y : Int) : Option Int :=
  match op with
  | .add => some (x + y)
  | .sub => some (x - y)
  | .mul => some (x * y)
  | .div => if y = 0 then none else some (x.tdiv y)
  | .mod => if y = 0 then none else some (x.tmod y)
  | _ => none

/-- In the range of an `i64`. -/
def InRange (r : Int) : Prop := Int64.minValue.toInt ≤ r ∧ r ≤ Int64.maxValue.toInt

/-- No panic, and the exact result where it is in range. -/
def MeetsExact (wanted : Option Int) (outcome : Outcome SqlError Value) : Prop :=
  (∀ reason, outcome ≠ .error (.panic reason)) ∧
    ∀ r, wanted = some r → InRange r → outcome = .ok (.integer (Int64.ofInt r))

/-! ## What they are -/

/-- An integer as a double and back. -/
def throughDouble (x : Int64) : Int64 := Int64.ofIntClamp (nearest x.toInt)

/-- The result on doubles. -/
def onDoubles (op : BinOp) (x y : Int64) : Int64 :=
  match op with
  | .add => Int64.ofIntClamp (nearest (nearest x.toInt + nearest y.toInt))
  | .sub => Int64.ofIntClamp (nearest (nearest x.toInt - nearest y.toInt))
  | .mul => Int64.ofIntClamp (nearest (nearest x.toInt * nearest y.toInt))
  | .div => throughDouble x / throughDouble y
  | _ => throughDouble x % throughDouble y

/-- The operands of a division that overflows: the dividend is rounded to the smallest integer. -/
def DivOverflows (op : BinOp) (x y : Int64) : Prop :=
  (op = .div ∨ op = .mod) ∧ x.toInt ≤ -2 ^ 63 + 512 ∧ y = -1

/-- There is no overflow, and rounding does not show. -/
def RoundsRight (op : BinOp) (x y : Int64) : Prop :=
  ¬ DivOverflows op x y ∧
    ∀ r, exactResult op x.toInt y.toInt = some r → InRange r → (onDoubles op x y).toInt = r

/-! ## Integers as doubles -/

theorem natAbs_toInt_le (x : Int64) : x.toInt.natAbs ≤ 2 ^ 63 := by
  have low := Int64.le_toInt x
  have high := Int64.toInt_lt x
  omega

theorem nearest_natAbs_le {v : Int} (bounded : v.natAbs ≤ 2 ^ 63) : (nearest v).natAbs ≤ 2 ^ 63 := by
  have top : nearestNat (2 ^ 63) = 2 ^ 63 := by decide +kernel
  rw [natAbs_nearest, ← top]
  exact nearestNat_mono bounded

theorem isWhole_asDouble (x : Int64) : IsWhole (asDouble x) (nearest x.toInt) :=
  Float64.isWhole_ofInt (Float64.lt_finiteBound ((natAbs_toInt_le x).trans (by decide)))

theorem toInt64_asDouble (x : Int64) : (asDouble x).toInt64 = throughDouble x :=
  (isWhole_asDouble x).toInt64

theorem isZero_asDouble (x : Int64) : (asDouble x).isZero = true ↔ x = 0 := by
  rw [(isWhole_asDouble x).isZero_iff, nearest_eq_zero, ← Int64.toInt_inj]
  rfl

/-- A double that is an integer gives an integer. -/
theorem numeric_whole {r : Float64} {v : Int} (whole : IsWhole r v) (bounded : v.natAbs ≤ 2 ^ 200) :
    numeric true r = .integer (Int64.ofIntClamp v) := by
  rw [numeric, if_pos ⟨rfl, whole.fract_isZero (Float64.lt_finiteBound bounded)⟩, whole.toInt64]

/-- A number is cut off at the bounds. -/
theorem toInt_ofIntClamp (v : Int) :
    (Int64.ofIntClamp v).toInt = max Int64.minValue.toInt (min v Int64.maxValue.toInt) := by
  have ends : Int64.minValue.toInt ≤ Int64.maxValue.toInt := by decide
  by_cases low : Int64.minValue.toInt ≤ v
  · by_cases high : v ≤ Int64.maxValue.toInt
    · rw [Int64.toInt_ofIntClamp low high]
      omega
    · have cut : Int64.ofIntClamp v = Int64.maxValue := by
        rw [Int64.ofIntClamp, dif_pos low, dif_neg high]
      rw [cut]
      omega
  · have cut : Int64.ofIntClamp v = Int64.minValue := by
      rw [Int64.ofIntClamp, dif_neg low]
    rw [cut]
    omega

/-! ## Integers through doubles -/

theorem toInt_throughDouble (x : Int64) :
    (throughDouble x).toInt = max Int64.minValue.toInt (min (nearest x.toInt) Int64.maxValue.toInt) :=
  toInt_ofIntClamp _

theorem throughDouble_of_small {x : Int64} (small : x.toInt.natAbs ≤ 2 ^ 53) : throughDouble x = x := by
  rw [throughDouble, nearest_of_le small, Int64.ofIntClamp_toInt]

theorem throughDouble_eq_zero {y : Int64} : throughDouble y = 0 ↔ y = 0 := by
  have low : Int64.minValue.toInt < 0 := by decide
  have high : 0 < Int64.maxValue.toInt := by decide
  have zero : (0 : Int64).toInt = 0 := rfl
  rw [← Int64.toInt_inj, ← Int64.toInt_inj, toInt_throughDouble, zero]
  have rounded := @nearest_eq_zero y.toInt
  omega

theorem throughDouble_eq_neg_one {y : Int64} : throughDouble y = -1 ↔ y = -1 := by
  by_cases small : y.toInt.natAbs ≤ 2 ^ 53
  · rw [throughDouble_of_small small]
  · have low : Int64.minValue.toInt < -1 := by decide
    have high : 0 < Int64.maxValue.toInt := by decide
    have one : (-1 : Int64).toInt = -1 := rfl
    have apart : nearest y.toInt ≤ -2 ^ 53 ∨ 2 ^ 53 ≤ nearest y.toInt := by
      rcases lt_or_ge y.toInt 0 with below | above
      · left
        have rounded := nearest_mono (by omega : y.toInt ≤ -2 ^ 53)
        rwa [nearest_of_le (by decide : (-2 ^ 53 : Int).natAbs ≤ 2 ^ 53)] at rounded
      · right
        have rounded := nearest_mono (by omega : 2 ^ 53 ≤ y.toInt)
        rwa [nearest_of_le (by decide : (2 ^ 53 : Int).natAbs ≤ 2 ^ 53)] at rounded
    rw [← Int64.toInt_inj, ← Int64.toInt_inj, toInt_throughDouble, one]
    omega

/-- The smallest integer and the 512 integers above it are one double. -/
theorem throughDouble_eq_minValue {x : Int64} :
    throughDouble x = Int64.minValue ↔ x.toInt ≤ -2 ^ 63 + 512 := by
  have least : Int64.minValue.toInt = -2 ^ 63 := by decide
  have greatest : Int64.maxValue.toInt = 2 ^ 63 - 1 := by decide
  have tie : nearest (-2 ^ 63 + 512) = -2 ^ 63 := by decide +kernel
  have next : nearest (-2 ^ 63 + 513) = -2 ^ 63 + 1024 := by decide +kernel
  rw [← Int64.toInt_inj, toInt_throughDouble, least, greatest]
  constructor
  · intro cut
    by_contra more
    have rounded := nearest_mono (by omega : -2 ^ 63 + 513 ≤ x.toInt)
    omega
  · intro low
    have rounded := nearest_mono low
    omega

theorem divOverflows_iff {op : BinOp} {x y : Int64} (division : op = .div ∨ op = .mod) :
    DivOverflows op x y ↔ throughDouble x = Int64.minValue ∧ throughDouble y = -1 := by
  rw [DivOverflows, throughDouble_eq_minValue, throughDouble_eq_neg_one]
  exact ⟨fun overflows => overflows.2, fun operands => ⟨division, operands⟩⟩

/-! ## The evaluator on integers -/

theorem natAbs_add_le {a b : Int} (left : a.natAbs ≤ 2 ^ 63) (right : b.natAbs ≤ 2 ^ 63) :
    (a + b).natAbs ≤ 2 ^ 64 ∧ (a - b).natAbs ≤ 2 ^ 64 := by omega

/-- A sum, a difference or a product never fails. -/
theorem evalBinary_whole {op : BinOp} (x y : Int64) (ring : op = .add ∨ op = .sub ∨ op = .mul) :
    evalBinary op (.integer x) (.integer y) = .ok (.integer (onDoubles op x y)) := by
  have left := nearest_natAbs_le (natAbs_toInt_le x)
  have right := nearest_natAbs_le (natAbs_toInt_le y)
  obtain ⟨sum, difference⟩ := natAbs_add_le left right
  have product : (nearest x.toInt * nearest y.toInt).natAbs ≤ 2 ^ 126 := by
    rw [Int.natAbs_mul]
    calc (nearest x.toInt).natAbs * (nearest y.toInt).natAbs ≤ 2 ^ 63 * 2 ^ 63 := Nat.mul_le_mul left right
      _ = 2 ^ 126 := by norm_num
  have small : ∀ {v : Int}, v.natAbs ≤ 2 ^ 126 →
      v.natAbs < finiteBound ∧ (nearest v).natAbs ≤ 2 ^ 200 := by
    intro v bounded
    have top : nearestNat (2 ^ 126) = 2 ^ 126 := by decide +kernel
    refine ⟨Float64.lt_finiteBound (bounded.trans (by decide)), ?_⟩
    rw [natAbs_nearest]
    exact (nearestNat_mono bounded).trans (top.le.trans (by decide))
  rcases ring with rfl | rfl | rfl
  · obtain ⟨bounded, rounded⟩ := small (sum.trans (by decide))
    exact congrArg Except.ok
      (numeric_whole ((isWhole_asDouble x).add (isWhole_asDouble y) bounded) rounded)
  · obtain ⟨bounded, rounded⟩ := small (difference.trans (by decide))
    exact congrArg Except.ok
      (numeric_whole ((isWhole_asDouble x).sub (isWhole_asDouble y) bounded) rounded)
  · obtain ⟨bounded, rounded⟩ := small product
    exact congrArg Except.ok
      (numeric_whole ((isWhole_asDouble x).mul (isWhole_asDouble y) bounded) rounded)

theorem evalBinary_div (x y : Int64) :
    evalBinary .div (.integer x) (.integer y) =
      if (asDouble y).isZero then .ok .null
      else (divI64 (throughDouble x) (throughDouble y)).map Value.integer := by
  rw [← toInt64_asDouble, ← toInt64_asDouble]
  rfl

theorem evalBinary_mod (x y : Int64) :
    evalBinary .mod (.integer x) (.integer y) =
      if (asDouble y).isZero then .ok .null
      else (remI64 (throughDouble x) (throughDouble y)).map Value.integer := by
  rw [← toInt64_asDouble, ← toInt64_asDouble]
  rfl

/-- A division by zero is NULL. -/
theorem evalBinary_by_zero {op : BinOp} (x : Int64) (division : op = .div ∨ op = .mod) :
    evalBinary op (.integer x) (.integer 0) = .ok .null := by
  have zero : (asDouble 0).isZero = true := (isZero_asDouble 0).mpr rfl
  rcases division with rfl | rfl
  · rw [evalBinary_div, if_pos zero]
  · rw [evalBinary_mod, if_pos zero]

/-- Other divisions are on the integers the doubles stand for, and can overflow. -/
theorem evalBinary_division {op : BinOp} (x : Int64) {y : Int64} (division : op = .div ∨ op = .mod)
    (some_ : y ≠ 0) :
    (DivOverflows op x y → ∃ reason, evalBinary op (.integer x) (.integer y) = .error (.panic reason)) ∧
      (¬ DivOverflows op x y →
        evalBinary op (.integer x) (.integer y) = .ok (.integer (onDoubles op x y))) := by
  have notZero : ¬ (asDouble y).isZero = true := fun zero => some_ ((isZero_asDouble y).mp zero)
  have notZero' : throughDouble y ≠ 0 := fun zero => some_ (throughDouble_eq_zero.mp zero)
  rw [divOverflows_iff division]
  rcases division with rfl | rfl
  · rw [evalBinary_div, if_neg notZero, divI64, if_neg notZero']
    refine ⟨fun overflows => ?_, fun fine => ?_⟩
    · rw [if_pos overflows]
      exact ⟨_, rfl⟩
    · rw [if_neg fine]
      rfl
  · rw [evalBinary_mod, if_neg notZero, remI64, if_neg notZero']
    refine ⟨fun overflows => ?_, fun fine => ?_⟩
    · rw [if_pos overflows]
      exact ⟨_, rfl⟩
    · rw [if_neg fine]
      rfl

/-! ## When they are right -/

theorem ofInt_eq_iff {r : Int} (within : InRange r) {i : Int64} : i = Int64.ofInt r ↔ i.toInt = r := by
  have back : (Int64.ofInt r).toInt = r :=
    Int64.toInt_ofInt_of_le within.1 (Int.lt_add_one_of_le within.2)
  rw [← Int64.toInt_inj, back]

theorem meetsExact_ok {wanted : Option Int} {i : Int64} :
    MeetsExact wanted (.ok (.integer i)) ↔ ∀ r, wanted = some r → InRange r → i.toInt = r := by
  constructor
  · rintro ⟨_, right⟩ r exact_ within
    exact (ofInt_eq_iff within).mp (Value.integer.inj (Except.ok.inj (right r exact_ within)))
  · intro right
    refine ⟨fun reason panicked => (nomatch panicked), fun r exact_ within => ?_⟩
    rw [← (ofInt_eq_iff within).mpr (right r exact_ within)]

theorem not_meetsExact_panic {wanted : Option Int} {reason : String} :
    ¬ MeetsExact wanted (.error (.panic reason)) := fun meets => meets.1 reason rfl

/-- The operators on numbers. -/
def arithmeticOps : List BinOp := [.add, .sub, .mul, .div, .mod]

/-- **The evaluator meets the exact result exactly if rounding does not show.** -/
theorem evalBinary_meetsExact_iff {op : BinOp} (arithmetic : op ∈ arithmeticOps) (x y : Int64) :
    MeetsExact (exactResult op x.toInt y.toInt) (evalBinary op (.integer x) (.integer y)) ↔
      RoundsRight op x y := by
  have kinds : (op = .add ∨ op = .sub ∨ op = .mul) ∨ op = .div ∨ op = .mod := by
    revert arithmetic
    cases op <;> simp [arithmeticOps]
  rcases kinds with ring | division
  · have noDivision : ¬ DivOverflows op x y := by
      rintro ⟨division, _⟩
      rcases ring with rfl | rfl | rfl <;> simp at division
    rw [evalBinary_whole x y ring, meetsExact_ok, RoundsRight]
    exact ⟨fun right => ⟨noDivision, right⟩, fun rounds => rounds.2⟩
  · by_cases zero : y = 0
    · subst zero
      have noResult : exactResult op x.toInt (0 : Int64).toInt = none := by
        rcases division with rfl | rfl <;> rfl
      have noOverflow : ¬ DivOverflows op x 0 := fun overflows => absurd overflows.2.2 (by decide)
      rw [evalBinary_by_zero x division, RoundsRight, noResult]
      refine iff_of_true ⟨fun reason panicked => (nomatch panicked), fun r absurd => nomatch absurd⟩
        ⟨noOverflow, fun r absurd => nomatch absurd⟩
    · obtain ⟨overflow, fine⟩ := evalBinary_division x division zero
      by_cases overflows : DivOverflows op x y
      · obtain ⟨reason, panicked⟩ := overflow overflows
        rw [panicked]
        exact iff_of_false not_meetsExact_panic fun rounds => rounds.1 overflows
      · rw [fine overflows, meetsExact_ok, RoundsRight]
        exact ⟨fun right => ⟨overflows, right⟩, fun rounds => rounds.2⟩

/-- Only the smallest integer has no negation. -/
theorem evalUnary_meetsExact_iff (x : Int64) :
    MeetsExact (some (-x.toInt)) (evalUnary .neg (.integer x)) ↔ x ≠ Int64.minValue := by
  have run : evalUnary .neg (.integer x) = (negI64 x).map Value.integer := rfl
  rw [run, negI64]
  by_cases least : x = Int64.minValue
  · rw [if_pos least]
    exact iff_of_false not_meetsExact_panic fun other => other least
  · rw [if_neg least]
    refine iff_of_true (meetsExact_ok.mpr fun r exact_ within => ?_) least
    obtain rfl := Option.some.inj exact_
    obtain ⟨low, high⟩ := within
    rw [Int64.toInt_minValue] at low
    rw [Int64.toInt_maxValue] at high
    rw [Int64.toInt_neg]
    exact Int.bmod_eq_of_le (by omega) (by omega)

/-- Up to 2^53 rounding does not show. -/
theorem RoundsRight.of_small {op : BinOp} {x y : Int64} (small : x.toInt.natAbs ≤ 2 ^ 53)
    (small' : y.toInt.natAbs ≤ 2 ^ 53)
    (result : ∀ r, exactResult op x.toInt y.toInt = some r → r.natAbs ≤ 2 ^ 53) :
    RoundsRight op x y := by
  have notLeast : x ≠ Int64.minValue := by
    rintro rfl
    exact absurd small (by decide)
  refine ⟨fun overflows => ?_, fun r exact_ within => ?_⟩
  · have low := overflows.2.1
    omega
  · have bounded := result r exact_
    have back : ∀ v : Int, v = r → (Int64.ofIntClamp (nearest v)).toInt = r := by
      rintro v rfl
      rw [nearest_of_le bounded, Int64.toInt_ofIntClamp within.1 within.2]
    cases op with
    | add =>
        rw [onDoubles, nearest_of_le small, nearest_of_le small']
        exact back _ (Option.some.inj exact_)
    | sub =>
        rw [onDoubles, nearest_of_le small, nearest_of_le small']
        exact back _ (Option.some.inj exact_)
    | mul =>
        rw [onDoubles, nearest_of_le small, nearest_of_le small']
        exact back _ (Option.some.inj exact_)
    | div =>
        rw [onDoubles, throughDouble_of_small small, throughDouble_of_small small',
          Int64.toInt_div_of_ne_left _ _ notLeast]
        simp only [exactResult] at exact_
        split at exact_
        · cases exact_
        · exact Option.some.inj exact_
    | mod =>
        rw [onDoubles, throughDouble_of_small small, throughDouble_of_small small', Int64.toInt_mod]
        · simp only [exactResult] at exact_
          split at exact_
          · cases exact_
          · exact Option.some.inj exact_
        · exact fun other => nomatch other
        · exact fun other => nomatch other
        · exact fun other => nomatch other
        · exact fun other => nomatch other
    | _ => cases exact_

/-! ## The optimizer -/

section

variable {Query : Type} (builtins : Builtins) (env : Env)

/-- An expression is folded, and then evaluated. -/
def evalFolded (e : Expr Query) : Outcome SqlError Value := do eval builtins env (← fold e)

variable {builtins env}

theorem evalFolded_binary (op : BinOp) (x y : Int64) :
    evalFolded builtins env (.binary op (.literal (.integer x)) (.literal (.integer y)) : Expr Query) =
      evalBinary op (.integer x) (.integer y) := by
  obtain ⟨folded, run⟩ : ∃ folded, fold (.binary op (.literal (.integer x)) (.literal (.integer y)) :
      Expr Query) = .ok folded := by
    simp only [fold, Outcome.ok_bind, pure, Except.pure, Expr.asLiteral]
    cases evalConstBinary op (.integer x) (.integer y) with
    | some v => exact ⟨_, rfl⟩
    | none => exact ⟨_, rfl⟩
  have plain : (.binary op (.literal (.integer x)) (.literal (.integer y)) : Expr Query).plain :=
    ⟨trivial, trivial⟩
  rw [evalFolded, run, Outcome.ok_bind, eval_fold plain run env]
  simp only [eval, Outcome.ok_bind]

/-- A negation that overflows does so when it is folded. -/
theorem evalFolded_neg (x : Int64) :
    evalFolded builtins env (.unary .neg (.literal (.integer x)) : Expr Query) =
      evalUnary .neg (.integer x) := by
  have run : evalUnary .neg (.integer x) = (negI64 x).map Value.integer := rfl
  simp only [evalFolded, fold, Outcome.ok_bind, pure, Except.pure, Expr.asLiteral, evalConstUnary, run]
  cases negI64 x with
  | error fault => rfl
  | ok negated => simp only [Outcome.ok_bind, eval, Except.map]

end

/-- **Arithmetic on integers is exact and does not panic** exactly where rounding to doubles does not
show, in the evaluator and in the optimizer. -/
theorem integer_arithmetic_iff {Query : Type} (builtins : Builtins) (env : Env) :
    (∀ op ∈ arithmeticOps, ∀ x y : Int64,
      MeetsExact (exactResult op x.toInt y.toInt) (evalBinary op (.integer x) (.integer y)) ∧
          MeetsExact (exactResult op x.toInt y.toInt) (evalFolded builtins env
            (.binary op (.literal (.integer x)) (.literal (.integer y)) : Expr Query)) ↔
        RoundsRight op x y) ∧
    ∀ x : Int64,
      MeetsExact (some (-x.toInt)) (evalUnary .neg (.integer x)) ∧
          MeetsExact (some (-x.toInt)) (evalFolded builtins env
            (.unary .neg (.literal (.integer x)) : Expr Query)) ↔
        x ≠ Int64.minValue := by
  refine ⟨fun op arithmetic x y => ?_, fun x => ?_⟩
  · rw [evalFolded_binary, and_self_iff, evalBinary_meetsExact_iff arithmetic]
  · rw [evalFolded_neg, and_self_iff, evalUnary_meetsExact_iff]

/-- Seven divided by minus two is minus three. -/
theorem integer_arithmetic_iff_seven :
    MeetsExact (some (-3)) (evalBinary .div (.integer 7) (.integer (-2))) :=
  (((@integer_arithmetic_iff Empty .bare ⟨[], 0, []⟩).1 .div (by decide) 7 (-2)).mpr
    (RoundsRight.of_small (by decide) (by decide) (by decide))).1

/-- An odd number above 2^53 is not kept by adding zero, the next but one to the smallest integer
cannot be divided by -1, and the smallest has no negation. -/
theorem integer_arithmetic_inexact :
    evalBinary .add (.integer 9007199254740993) (.integer 0) = .ok (.integer 9007199254740992) ∧
    evalBinary .div (.integer (-9223372036854775807)) (.integer (-1)) =
      Outcome.panic "attempt to divide with overflow" ∧
    evalUnary .neg (.integer Int64.minValue) = Outcome.panic "attempt to negate with overflow" ∧
    ¬ ∀ op ∈ arithmeticOps, ∀ x y : Int64,
      MeetsExact (exactResult op x.toInt y.toInt) (evalBinary op (.integer x) (.integer y)) := by
  have added : evalBinary .add (.integer 9007199254740993) (.integer 0) =
      .ok (.integer 9007199254740992) := by decide +kernel
  refine ⟨added, by decide +kernel, by decide +kernel, fun exact_ => ?_⟩
  have right := (exact_ .add (by decide) 9007199254740993 0).2 9007199254740993 (by decide)
    ⟨by decide, by decide⟩
  rw [added] at right
  exact absurd right (by decide)

end Squrust.Sql
