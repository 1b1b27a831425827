import Squrust.Foundation.DoubleOrder
import Squrust.Sql.IntegerArithmetic

/-!
# The order of values

The order of ORDER BY should be a total preorder whose equality is the one of DISTINCT,
GROUP BY, UNIQUE and IN, and which orders integers as they are ordered
(`OrdersRight`). It is one on some values exactly if there is no NaN among them, no
JSON document along with two different texts, and no two integers that are the same
double (`ordersRight_iff`): NaN is before nothing but not equal to itself, a document
is equal to every text, and integers are compared as doubles.
-/

set_option autoImplicit false

namespace Squrust.Sql

open Squrust.Foundation

open Float64 (comparePositions position)

/-- On these values the order is a total preorder, its equality is `==`, and integers are in the
order they have. -/
structure OrdersRight (values : Set Value) : Prop where
  total : ∀ a ∈ values, ∀ b ∈ values, a.orderKey b ≠ .gt ∨ b.orderKey a ≠ .gt
  trans : ∀ a ∈ values, ∀ b ∈ values, ∀ c ∈ values,
    a.orderKey b ≠ .gt → b.orderKey c ≠ .gt → a.orderKey c ≠ .gt
  /-- Equal is what is not behind the other either way. -/
  swap : ∀ a ∈ values, ∀ b ∈ values, b.orderKey a = (a.orderKey b).swap
  agrees : ∀ a ∈ values, ∀ b ∈ values, a.orderKey b = .eq ↔ a.eq b = true
  integers : ∀ x y : Int64, .integer x ∈ values → .integer y ∈ values →
    (Value.integer x).orderKey (.integer y) = compare x.toInt y.toInt

/-- No NaN, no document along with two texts, and no two integers in one double. -/
structure Orderable (values : Set Value) : Prop where
  noNan : ∀ r, .real r ∈ values → r.isNan = false
  texts : ∀ j t t', .json j ∈ values → .text t ∈ values → .text t' ∈ values → t = t'
  integers : ∀ x y : Int64, .integer x ∈ values → .integer y ∈ values →
    nearest x.toInt = nearest y.toInt → x = y

/-! ## A key for every value -/

namespace Value

/-- The position of a number. -/
def numberKey (v : Value) : Float64.Position := (v.numericOnly.map position).getD (0, 0, 0)

/-- A text; with documents around, all of them are the same. -/
def textKey (documents : Prop) [Decidable documents] : Value → Text
  | text t => if documents then [] else t
  | _ => []

def blobKey : Value → Bytes
  | blob b => b
  | _ => []

/-- By the class, and in it by the key. -/
def compareKeys (documents : Prop) [Decidable documents] : Value → Value → Ordering :=
  compareLex (compareOn classRank) (compareLex (fun a b => comparePositions a.numberKey b.numberKey)
    (compareLex (compareOn (textKey documents)) (compareOn blobKey)))

instance transCmp_numberKey : Std.TransCmp fun a b : Value => comparePositions a.numberKey b.numberKey where
  eq_swap := Std.OrientedCmp.eq_swap
  isLE_trans := Std.TransCmp.isLE_trans

instance transCmp_compareKeys (documents : Prop) [Decidable documents] :
    Std.TransCmp (compareKeys documents) :=
  inferInstanceAs (Std.TransCmp (compareLex _ _))

/-- Values of different classes are ordered by these. -/
theorem orderKey_of_classRank_ne {a b : Value} (different : a.classRank ≠ b.classRank) :
    a.orderKey b = Ord.compare a.classRank b.classRank := by
  cases a <;> cases b <;> first | rfl | exact absurd rfl different

theorem compareKeys_of_classRank_ne {documents : Prop} [Decidable documents] {a b : Value}
    (different : a.classRank ≠ b.classRank) :
    compareKeys documents a b = Ord.compare a.classRank b.classRank := by
  change (Ord.compare a.classRank b.classRank).then _ = _
  rcases lt_or_gt_of_ne different with less | more
  · rw [compare_lt_iff_lt.mpr less]
    rfl
  · rw [compare_gt_iff_gt.mpr more]
    rfl

/-- Numbers are ordered as doubles. -/
theorem orderKey_numbers {a b : Value} {x y : Float64} (left : a.numericOnly = some x)
    (right : b.numericOnly = some y) : a.compare b = x.partialCmp y := by
  cases a with
  | integer | real | boolean =>
      obtain rfl := Option.some.inj left
      cases b with
      | integer | real | boolean =>
          obtain rfl := Option.some.inj right
          rfl
      | _ => cases right
  | _ => cases left

theorem compareKeys_numbers {documents : Prop} [Decidable documents] {a b : Value} {x y : Float64}
    (left : a.numericOnly = some x) (right : b.numericOnly = some y) :
    compareKeys documents a b = comparePositions x.position y.position := by
  have keys : a.numberKey = x.position ∧ b.numberKey = y.position := by
    rw [numberKey, numberKey, left, right]
    exact ⟨rfl, rfl⟩
  rw [← keys.1, ← keys.2]
  cases a with
  | integer | real | boolean =>
      cases b with
      | integer | real | boolean => exact Ordering.then_eq
      | _ => cases right
  | _ => cases left

end Value

section

variable {values : Set Value}

/-- The numbers among the values are no NaN. -/
theorem Orderable.isNan_eq_false (orderable : Orderable values) {a : Value} (member : a ∈ values)
    {x : Float64} (number : a.numericOnly = some x) : x.isNan = false := by
  cases a with
  | integer i =>
      obtain rfl := Option.some.inj number
      exact (isWhole_asDouble i).isNan_eq_false
  | real r =>
      obtain rfl := Option.some.inj number
      exact orderable.noNan r member
  | boolean b =>
      obtain rfl := Option.some.inj number
      cases b with
      | true => decide +kernel
      | false => exact Float64.isWhole_zero.isNan_eq_false
  | _ => cases number

open Classical in
/-- **On orderable values the order is that of the keys.** -/
theorem Orderable.orderKey_eq (orderable : Orderable values) {a b : Value} (left : a ∈ values)
    (right : b ∈ values) :
    a.orderKey b = Value.compareKeys (∃ j, Value.json j ∈ values) a b := by
  by_cases different : a.classRank ≠ b.classRank
  · rw [Value.orderKey_of_classRank_ne different, Value.compareKeys_of_classRank_ne different]
  · have same := not_not.mp different
    have numbers : ∀ {x y : Float64}, a.numericOnly = some x → b.numericOnly = some y →
        (a.compare b).getD .eq = Value.compareKeys (∃ j, Value.json j ∈ values) a b := by
      intro x y number number'
      rw [Value.orderKey_numbers number number', Value.compareKeys_numbers number number',
        Float64.partialCmp_eq (orderable.isNan_eq_false left number)
          (orderable.isNan_eq_false right number')]
      rfl
    cases a with
    | null =>
        cases b with
        | null => exact Std.ReflCmp.compare_self.symm
        | _ => cases same
    | integer | real | boolean =>
        cases b with
        | integer | real | boolean => exact numbers rfl rfl
        | _ => cases same
    | text t =>
        cases b with
        | text t' =>
            change Ord.compare t t' = (Ord.compare (Value.textKey _ (.text t)) (Value.textKey _ (.text t'))).then .eq
            rw [Ordering.then_eq, Value.textKey, Value.textKey]
            split
            · next documents =>
              obtain ⟨j, document⟩ := documents
              obtain rfl := orderable.texts j t t' document left right
              exact Std.ReflCmp.compare_self
            · rfl
        | json j =>
            change Ordering.eq = (Ord.compare (Value.textKey _ (.text t)) []).then .eq
            rw [Value.textKey, if_pos ⟨j, right⟩]
            rfl
        | _ => cases same
    | json j =>
        cases b with
        | text t =>
            change Ordering.eq = (Ord.compare [] (Value.textKey _ (.text t))).then .eq
            rw [Value.textKey, if_pos ⟨j, left⟩]
            rfl
        | json j' => rfl
        | _ => cases same
    | blob bytes =>
        cases b with
        | blob bytes' => rfl
        | _ => cases same

/-- Only numbers can fail to be compared. -/
theorem Value.exists_compare {a b : Value} (present : a ≠ .null) (present' : b ≠ .null)
    (comparable : ∀ x y, a.numericOnly = some x → b.numericOnly = some y → x.partialCmp y ≠ none) :
    ∃ order, a.compare b = some order ∧ a.orderKey b = order := by
  have numbers : ∀ {x y : Float64}, a.numericOnly = some x → b.numericOnly = some y →
      ∃ order, a.compare b = some order := by
    intro x y number number'
    rw [Value.orderKey_numbers number number']
    exact Option.ne_none_iff_exists'.mp (comparable x y number number')
  have compared : ∃ order, a.compare b = some order := by
    cases a with
    | null => exact absurd rfl present
    | integer | real | boolean =>
        cases b with
        | null => exact absurd rfl present'
        | integer | real | boolean => exact numbers rfl rfl
        | _ => exact ⟨_, rfl⟩
    | _ =>
        cases b with
        | null => exact absurd rfl present'
        | _ => exact ⟨_, rfl⟩
  obtain ⟨order, run⟩ := compared
  refine ⟨order, run, ?_⟩
  have other : a.orderKey b = (a.compare b).getD .eq := by
    cases a with
    | null => exact absurd rfl present
    | _ =>
        cases b with
        | null => exact absurd rfl present'
        | _ => rfl
  rw [other, run]
  rfl

/-- Values that can be compared are equal in both ways. -/
theorem Value.orderKey_eq_iff {a b : Value}
    (comparable : ∀ x y, a.numericOnly = some x → b.numericOnly = some y → x.partialCmp y ≠ none) :
    a.orderKey b = .eq ↔ a.eq b = true := by
  by_cases null : a = .null
  · subst null
    cases b with
    | null => exact iff_of_true rfl rfl
    | _ => exact iff_of_false (fun same => nomatch same) (fun same => nomatch same)
  · by_cases null' : b = .null
    · subst null'
      cases a with
      | null => exact absurd rfl null
      | _ => exact iff_of_false (fun same => nomatch same) (fun same => nomatch same)
    · obtain ⟨order, run, key⟩ := Value.exists_compare null null' comparable
      rw [key, Value.eq, run, beq_iff_eq, Option.some.injEq]

/-- Integers are ordered as their doubles. -/
theorem orderKey_integers (x y : Int64) :
    (Value.integer x).orderKey (.integer y) = compare (nearest x.toInt) (nearest y.toInt) := by
  change ((asDouble x).partialCmp (asDouble y)).getD .eq = _
  rw [(isWhole_asDouble x).partialCmp (isWhole_asDouble y)]
  rfl

theorem compare_nearest {a b : Int} (apart : nearest a = nearest b → a = b) :
    compare (nearest a) (nearest b) = compare a b := by
  rcases lt_trichotomy a b with less | rfl | more
  · have rounded := nearest_mono less.le
    have different : nearest a ≠ nearest b := fun same => less.ne (apart same)
    rw [compare_lt_iff_lt.mpr less, compare_lt_iff_lt.mpr (lt_of_le_of_ne rounded different)]
  · rw [compare_eq_iff_eq.mpr rfl, compare_eq_iff_eq.mpr rfl]
  · have rounded := nearest_mono more.le
    have different : nearest b ≠ nearest a := fun same => more.ne (apart same.symm).symm
    rw [compare_gt_iff_gt.mpr more, compare_gt_iff_gt.mpr (lt_of_le_of_ne rounded different)]

open Classical in
theorem Orderable.ordersRight (orderable : Orderable values) : OrdersRight values where
  total a inA b inB := by
    have swapped : Value.compareKeys (∃ j, Value.json j ∈ values) a b =
        (Value.compareKeys (∃ j, Value.json j ∈ values) b a).swap := Std.OrientedCmp.eq_swap
    rw [orderable.orderKey_eq inA inB, orderable.orderKey_eq inB inA, swapped]
    cases Value.compareKeys (∃ j, Value.json j ∈ values) b a <;> simp
  trans a inA b inB c inC := by
    rw [orderable.orderKey_eq inA inB, orderable.orderKey_eq inB inC, orderable.orderKey_eq inA inC]
    simp only [← Ordering.isLE_iff_ne_gt]
    exact Std.TransCmp.isLE_trans
  swap a inA b inB := by
    rw [orderable.orderKey_eq inA inB, orderable.orderKey_eq inB inA]
    exact Std.OrientedCmp.eq_swap
  agrees a inA b inB := by
    refine Value.orderKey_eq_iff fun x y number number' => ?_
    rw [Float64.partialCmp_eq (orderable.isNan_eq_false inA number)
      (orderable.isNan_eq_false inB number')]
    exact Option.some_ne_none _
  integers x y inX inY := by
    rw [orderKey_integers]
    exact compare_nearest fun same => congrArg Int64.toInt (orderable.integers x y inX inY same)

theorem OrdersRight.orderable (right : OrdersRight values) : Orderable values where
  noNan r member := by
    by_contra nan
    have undefined := Float64.partialCmp_nan (Bool.not_eq_false _ ▸ nan)
    have key : (Value.real r).orderKey (.real r) = .eq := by
      change (r.partialCmp r).getD .eq = .eq
      rw [undefined]
      rfl
    have equal := (right.agrees _ member _ member).mp key
    rw [Value.eq] at equal
    change (r.partialCmp r == some .eq) = true at equal
    rw [undefined] at equal
    cases equal
  texts j t t' document first second := by
    -- The document is equal to both texts, so each of them is at most the other.
    have below : ∀ t t', .text t ∈ values → .text t' ∈ values → Ord.compare t t' ≠ .gt :=
      fun t t' first second => right.trans (.text t) first (.json j) document (.text t') second
        (fun more => nomatch more) fun more => nomatch more
    have le := below t t' first second
    have ge := below t' t second first
    rw [Std.OrientedOrd.eq_swap (a := t') (b := t)] at ge
    refine Std.LawfulEqOrd.eq_of_compare ?_
    cases order : Ord.compare t t' with
    | eq => rfl
    | gt => exact absurd order le
    | lt =>
        rw [order] at ge
        exact absurd rfl ge
  integers x y inX inY same := by
    have order := right.integers x y inX inY
    rw [orderKey_integers, same, compare_eq_iff_eq.mpr rfl] at order
    exact Int64.toInt_inj.mp (compare_eq_iff_eq.mp order.symm)

end

/-- **The order of values is right exactly on those** among which there is no NaN, no JSON document
along with two texts, and no two integers in one double. -/
theorem ordersRight_iff (values : Set Value) : OrdersRight values ↔ Orderable values :=
  ⟨OrdersRight.orderable, Orderable.ordersRight⟩

/-- Two integers in one double, NaN, and a document between two texts. -/
theorem ordersRight_univ :
    ¬ OrdersRight Set.univ ∧
    (Value.integer 9007199254740992).orderKey (.integer 9007199254740993) = .eq ∧
    (Value.real Float64.nan).orderKey (.integer 1) = .eq ∧
    (Value.real Float64.nan).eq (.real Float64.nan) = false ∧
    (Value.text ['a']).orderKey (.json []) = .eq ∧ (Value.text ['b']).orderKey (.json []) = .eq := by
  refine ⟨fun right => ?_, by decide +kernel, by decide +kernel, by decide +kernel, rfl, rfl⟩
  have same := right.orderable.integers 9007199254740992 9007199254740993 trivial trivial
    (by decide +kernel)
  exact absurd same (by decide)

end Squrust.Sql
