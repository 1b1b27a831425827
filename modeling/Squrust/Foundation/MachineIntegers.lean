import Mathlib.Order.Defs.LinearOrder

/-!
# Machine integers as linear orders

Machine integers in the order of the integers they stand for, so that the
general facts about ordered keys apply to them.
-/

set_option autoImplicit false

namespace Squrust.Foundation

instance linearOrderInt64 : LinearOrder Int64 where
  le_refl := Int64.le_refl
  le_trans _ _ _ := Int64.le_trans
  le_antisymm _ _ := Int64.le_antisymm
  le_total := Int64.le_total
  lt_iff_le_not_ge _ _ := by
    simp only [Int64.lt_iff_toInt_lt, Int64.le_iff_toInt_le]
    omega
  toDecidableLE := inferInstance
  toDecidableEq := inferInstance
  toDecidableLT := inferInstance

theorem Int64.minValue_le (key : Int64) : Int64.minValue ≤ key := by
  rw [Int64.le_iff_toInt_le]
  exact Int64.minValue_le_toInt key

theorem Int64.le_maxValue (key : Int64) : key ≤ Int64.maxValue := by
  rw [Int64.le_iff_toInt_le]
  exact Int64.toInt_le key

/-- The keys from the next one on are the keys behind this one. -/
theorem Int64.add_one_le_iff {key other : Int64} (notMax : key ≠ Int64.maxValue) :
    key + 1 ≤ other ↔ key < other := by
  have below : key.toInt < Int64.maxValue.toInt := by
    have high := Int64.toInt_le key
    have different : key.toInt ≠ Int64.maxValue.toInt := fun same => notMax (Int64.toInt_inj.mp same)
    omega
  have next : (key + 1).toInt = key.toInt + 1 := by
    have low := Int64.le_toInt key
    rw [Int64.toInt_maxValue] at below
    rw [Int64.toInt_add, show (1 : Int64).toInt = 1 from rfl, Int.bmod_eq_of_le (by omega) (by omega)]
  rw [Int64.le_iff_toInt_le, Int64.lt_iff_toInt_lt, next]
  exact Int.add_one_le_iff

instance linearOrderUInt32 : LinearOrder UInt32 where
  le_refl _ := UInt32.le_rfl
  le_trans _ _ _ := UInt32.le_trans
  le_antisymm _ _ := UInt32.le_antisymm
  le_total := UInt32.le_total
  lt_iff_le_not_ge _ _ := by
    simp only [UInt32.lt_iff_toNat_lt, UInt32.le_iff_toNat_le]
    omega
  toDecidableLE := inferInstance
  toDecidableEq := inferInstance
  toDecidableLT := inferInstance

instance linearOrderUInt64 : LinearOrder UInt64 where
  le_refl _ := UInt64.le_rfl
  le_trans _ _ _ := UInt64.le_trans
  le_antisymm _ _ := UInt64.le_antisymm
  le_total := UInt64.le_total
  lt_iff_le_not_ge _ _ := by
    simp only [UInt64.lt_iff_toNat_lt, UInt64.le_iff_toNat_le]
    omega
  toDecidableLE := inferInstance
  toDecidableEq := inferInstance
  toDecidableLT := inferInstance

end Squrust.Foundation
