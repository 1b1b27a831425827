import Squrust.Foundation.Float64

/-!
# The order of doubles

Doubles other than NaN are ordered by their position on the line: minus infinity,
negative numbers, zero, positive numbers, infinity, and among numbers by exponent and
digits (`partialCmp_eq`). NaN has no order, not even with itself (`partialCmp_nan`).
-/

set_option autoImplicit false

namespace Squrust.Foundation.Float64

open Float.Model (UnpackedFloat)

/-- The part of the line, and there the exponent and the digits. -/
abbrev Position := Int × Int × Int

def comparePositions : Position → Position → Ordering :=
  compareLex (compareOn Prod.fst) (compareLex (compareOn fun p => p.2.1) (compareOn fun p => p.2.2))

/-- The position of an unpacked double; NaN has none. -/
def positionOf : UnpackedFloat → Position
  | .infinity .negative => (-2, 0, 0)
  | .finite .negative mantissa exponent _ => (-1, -exponent, -mantissa)
  | .notANumber | .zero _ => (0, 0, 0)
  | .finite .positive mantissa exponent _ => (1, exponent, mantissa)
  | .infinity .positive => (2, 0, 0)

def position (x : Float64) : Position := positionOf x.unpack

instance transCmp_comparePositions : Std.TransCmp comparePositions :=
  inferInstanceAs (Std.TransCmp (compareLex _ _))

theorem compare_natCast (a b : Nat) : compare (a : Int) (b : Int) = compare a b := by
  rcases lt_trichotomy a b with less | rfl | more
  · rw [compare_lt_iff_lt.mpr less, compare_lt_iff_lt.mpr (by omega)]
  · rw [compare_eq_iff_eq.mpr rfl, compare_eq_iff_eq.mpr rfl]
  · rw [compare_gt_iff_gt.mpr more, compare_gt_iff_gt.mpr (by omega)]

theorem compare_neg (a b : Int) : compare (-a) (-b) = (compare a b).swap := by
  rcases lt_trichotomy a b with less | rfl | more
  · rw [compare_lt_iff_lt.mpr less, compare_gt_iff_gt.mpr (by omega)]
    rfl
  · rw [compare_eq_iff_eq.mpr rfl, compare_eq_iff_eq.mpr rfl]
    rfl
  · rw [compare_gt_iff_gt.mpr more, compare_lt_iff_lt.mpr (by omega)]
    rfl

theorem comparePositions_same (part e e' d d' : Int) :
    comparePositions (part, e, d) (part, e', d') = (compare e e').then (compare d d') := by
  change (compare part part).then _ = _
  rw [compare_eq_iff_eq.mpr rfl]
  rfl

/-- Unpacked doubles are ordered by their positions. -/
theorem compare_positionOf {x y : UnpackedFloat} (number : x ≠ .notANumber) (number' : y ≠ .notANumber) :
    x.compare y = some (comparePositions (positionOf x) (positionOf y)) := by
  cases x with
  | notANumber => exact absurd rfl number
  | infinity s =>
      cases y with
      | notANumber => exact absurd rfl number'
      | infinity s' => cases s <;> cases s' <;> rfl
      | zero s' => cases s <;> rfl
      | finite s' => cases s <;> cases s' <;> rfl
  | zero s =>
      cases y with
      | notANumber => exact absurd rfl number'
      | infinity s' => cases s' <;> rfl
      | zero s' => rfl
      | finite s' => cases s' <;> rfl
  | finite s m e p =>
      cases y with
      | notANumber => exact absurd rfl number'
      | infinity s' => cases s <;> cases s' <;> rfl
      | zero s' => cases s <;> rfl
      | finite s' m' e' p' =>
          cases s with
          | negative =>
              cases s' with
              | negative =>
                  change some ((compare e e').then (compare m m')).swap =
                    some (comparePositions (-1, -e, -(m : Int)) (-1, -e', -(m' : Int)))
                  rw [comparePositions_same, compare_neg, compare_neg, compare_natCast,
                    Ordering.swap_then]
              | positive => rfl
          | positive =>
              cases s' with
              | negative => rfl
              | positive =>
                  change some ((compare e e').then (compare m m')) =
                    some (comparePositions (1, e, (m : Int)) (1, e', (m' : Int)))
                  rw [comparePositions_same, compare_natCast]

theorem isNan_iff {x : Float64} : x.isNan = true ↔ x.unpack = .notANumber := by
  change x.unpack.isNaN = true ↔ _
  cases x.unpack with
  | notANumber => exact iff_of_true rfl rfl
  | _ => exact iff_of_false Bool.false_ne_true (fun same => by cases same)

/-- **Doubles that are numbers are ordered by their positions.** -/
theorem partialCmp_eq {x y : Float64} (number : x.isNan = false) (number' : y.isNan = false) :
    x.partialCmp y = some (comparePositions x.position y.position) := by
  refine compare_positionOf (fun nan => ?_) fun nan => ?_
  · rw [isNan_iff.mpr nan] at number
    cases number
  · rw [isNan_iff.mpr nan] at number'
    cases number'

/-- NaN is not equal to itself. -/
theorem partialCmp_nan {x : Float64} (nan : x.isNan = true) : x.partialCmp x = none := by
  change x.unpack.compare x.unpack = none
  rw [isNan_iff.mp nan]
  rfl

end Squrust.Foundation.Float64
