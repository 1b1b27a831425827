import Mathlib
import Squrust.Foundation.Float64

/-!
# Integers that are doubles

Integers of magnitude at most 2^53 are doubles, so nothing is rounded, and
doubles order them as they are ordered (`partialCmp_ofInt`).

Such an integer has 53 binary digits and an exponent (`Digits`), which determine
it, and these are compared first by the exponent.
-/

set_option autoImplicit false

namespace Squrust.Foundation.Float64

open Float.Model Float.Model.UnpackedFloat

/-! ## Packing and unpacking -/

theorem unpackSign_packComponents {sign : Sign} {exponent : BitVec 11} {mantissa : BitVec 52} :
    Sign.ofBitVec (unpackSign (packComponents .binary64 sign exponent mantissa)) = sign := by
  have front : unpackSign (packComponents .binary64 sign exponent mantissa) = sign.toBitVec := by
    ext index within
    obtain rfl : index = 0 := by omega
    simp only [unpackSign, packComponents]
    grind
  rw [front]
  cases sign with
  | negative => rfl
  | positive => rfl

/-- A double with all its digits is unpacked as it was packed. -/
theorem unpack_pack_finite {sign : Sign} {mantissa : Nat} {exponent : Int} (positive : 0 < mantissa)
    (normal : 2 ^ 52 ≤ mantissa) (small : mantissa < 2 ^ 53) (low : -1074 ≤ exponent)
    (high : exponent ≤ 971) :
    UnpackedFloat.unpack .binary64 (UnpackedFloat.pack .binary64 (.finite sign mantissa exponent positive)) =
      .finite sign mantissa exponent positive := by
  have digits : mantissa.log2 = 52 := by
    rw [Nat.log2_eq_iff (by omega)]
    exact ⟨normal, small⟩
  have biased : (exponent + (Format.binary64.exponentBias : Int) +
      (Format.binary64.mantissaBitsWithoutImplicit : Int)).toNat = (exponent + 1075).toNat := by
    change (exponent + (1023 : Int) + (52 : Int)).toNat = _
    omega
  obtain ⟨field, held⟩ : ∃ field : Nat, (field : Int) = exponent + 1075 :=
    ⟨(exponent + 1075).toNat, by omega⟩
  have word : (BitVec.ofNat 11 field).toNat = field := by
    rw [BitVec.toNat_ofNat]
    omega
  have notAll : BitVec.ofNat 11 field ≠ -1#11 := by
    intro same
    have values := congrArg BitVec.toNat same
    rw [word] at values
    have all : (-1#11).toNat = 2047 := rfl
    omega
  have notNone : BitVec.ofNat 11 field ≠ 0#11 := by
    intro same
    have values := congrArg BitVec.toNat same
    rw [word] at values
    have none : (0#11).toNat = 0 := rfl
    omega
  have whole : (1#1 ++ BitVec.ofNat 52 mantissa).toNat = mantissa := by
    rw [BitVec.toNat_append, ← Nat.shiftLeft_add_eq_or_of_lt (BitVec.ofNat 52 mantissa).isLt,
      BitVec.toNat_ofNat, BitVec.toNat_ofNat, Nat.shiftLeft_eq]
    omega
  rw [UnpackedFloat.pack]
  simp only [digits, biased, ← held, Int.toNat_natCast]
  have full : Format.binary64.mantissaBits = 53 := rfl
  rw [if_neg (by omega), if_pos full.symm, UnpackedFloat.unpack]
  simp only [unpackMantissa_packComponents, unpackExponent_packComponents, unpackSign_packComponents]
  rw [if_neg notAll, if_neg notNone]
  simp only [whole, word]
  congr 1
  change (field : Int) - ((1023 : Int) + (52 : Int)) = exponent
  omega

theorem unpack_pack_zero (sign : Sign) :
    UnpackedFloat.unpack .binary64 (UnpackedFloat.pack .binary64 (.zero sign)) = .zero sign := by
  cases sign with
  | negative => rfl
  | positive => rfl

/-! ## Integers without rounding -/

/-- The exponent of a number with its 53 digits. -/
def exponentOf (n : Nat) : Int := n.log2 - 52

/-- Its digits. -/
def digitsOfNat (n : Nat) : Nat := if n.log2 ≤ 52 then n * 2 ^ (52 - n.log2) else n / 2

theorem digitsOfNat_bounds {n : Nat} (positive : 0 < n) (small : n ≤ 2 ^ 53) :
    2 ^ 52 ≤ digitsOfNat n ∧ digitsOfNat n < 2 ^ 53 := by
  have lower := Nat.log2_self_le (by omega : n ≠ 0)
  have upper := @Nat.lt_log2_self n
  unfold digitsOfNat
  split
  · next few =>
    obtain ⟨rest, split⟩ : ∃ rest, 52 = n.log2 + rest := ⟨52 - n.log2, by omega⟩
    have power : 2 ^ 52 = 2 ^ n.log2 * 2 ^ rest := by rw [← Nat.pow_add, ← split]
    have power' : 2 ^ 53 = 2 ^ (n.log2 + 1) * 2 ^ rest := by
      rw [← Nat.pow_add]
      congr 1
      omega
    have shift : 52 - n.log2 = rest := by omega
    rw [shift, power, power']
    exact ⟨Nat.mul_le_mul_right _ lower, Nat.mul_lt_mul_of_pos_right upper (Nat.two_pow_pos _)⟩
  · next many =>
    have big : 2 ^ 53 ≤ n := (Nat.pow_le_pow_right (by decide) (by omega)).trans lower
    omega

theorem digitsOfNat_pos {n : Nat} (positive : 0 < n) (small : n ≤ 2 ^ 53) : 0 < digitsOfNat n :=
  (Nat.two_pow_pos 52).trans_le (digitsOfNat_bounds positive small).1

theorem log2_le {n : Nat} (small : n ≤ 2 ^ 53) : n.log2 ≤ 53 := by
  by_contra big
  have positive : n ≠ 0 := by
    rintro rfl
    exact big (by decide)
  have lower := (Nat.pow_le_pow_right (by decide) (not_le.mp big)).trans (Nat.log2_self_le positive)
  omega

/-- Only 2^53 itself has more than 53 digits. -/
theorem eq_of_many {n : Nat} (small : n ≤ 2 ^ 53) (many : ¬ n.log2 ≤ 52) : n = 2 ^ 53 := by
  have positive : n ≠ 0 := by
    rintro rfl
    exact many (by decide)
  have lower := (Nat.pow_le_pow_right (by decide) (not_le.mp many)).trans (Nat.log2_self_le positive)
  omega

theorem targetExponent_eq (total : Int) :
    Format.binary64.targetExponent total = max (total - 53) (-1074) := rfl

/-- Digits that are all there are not rounded. -/
theorem shiftToTargetExponent_full {mantissa : Nat} {exponent : Int} (normal : 2 ^ 52 ≤ mantissa)
    (small : mantissa < 2 ^ 53) (low : -1074 ≤ exponent) :
    shiftToTargetExponent .binary64 mantissa exponent .exact = (⟨mantissa, false, false⟩, exponent) := by
  have digits : mantissa.log2 = 52 := by
    rw [Nat.log2_eq_iff (by omega)]
    exact ⟨normal, small⟩
  have none : (Format.binary64.targetExponent (totalExponent mantissa exponent) - exponent).toNat = 0 := by
    rw [targetExponent_eq, totalExponent, digits]
    omega
  rw [shiftToTargetExponent]
  simp only [shiftToExponent, none]
  exact congrArg (Prod.mk _) (by simp)

/-- A small number is rounded to itself. -/
theorem round_eq {sign : Sign} {n : Nat} (positive : 0 < n) (small : n ≤ 2 ^ 53) :
    UnpackedFloat.round .binary64 sign n 0 =
      .finite sign (digitsOfNat n) (exponentOf n) (digitsOfNat_pos positive small) := by
  by_cases few : n.log2 ≤ 52
  · have target : Format.binary64.targetExponent (totalExponent n 0) = exponentOf n := by
      rw [targetExponent_eq, totalExponent, exponentOf]
      omega
    have shift : (0 - exponentOf n).toNat = 52 - n.log2 := by
      rw [exponentOf]
      omega
    have digits : n <<< (52 - n.log2) = digitsOfNat n := by
      rw [Nat.shiftLeft_eq, digitsOfNat, if_pos few]
    have exponent : (0 : Int) - ((52 - n.log2 : Nat) : Int) = exponentOf n := by
      rw [exponentOf]
      omega
    obtain ⟨normal, bounded⟩ := digitsOfNat_bounds positive small
    have low : -1074 ≤ exponentOf n := by
      rw [exponentOf]
      omega
    have kept := shiftToTargetExponent_full normal bounded low
    rw [UnpackedFloat.round]
    simp only [target, decreaseExponent, shift, digits, exponent]
    rw [roundWithAccuracy]
    simp only [kept, ExtendedMantissa.roundedMantissa, ExtendedMantissa.accuracy,
      Accuracy.roundToNearestEven]
    rw [dif_neg (digitsOfNat_pos positive small).ne']
  · have power := eq_of_many small few
    subst power
    cases sign with
    | negative => rfl
    | positive => rfl

/-- What was packed without rounding is unpacked again. -/
theorem unpack_ofModel_pack {value : UnpackedFloat}
    (stays : UnpackedFloat.unpack .binary64 (UnpackedFloat.pack .binary64 value) = value) :
    (ofModel (.pack value)).unpack = value := by
  change UnpackedFloat.unpack .binary64 (UnpackedFloat.pack .binary64
    (UnpackedFloat.unpack .binary64 (UnpackedFloat.pack .binary64 value))) = value
  rw [stays, stays]

theorem unpack_ofInt_zero : (ofInt 0).unpack = .zero .positive :=
  unpack_ofModel_pack (unpack_pack_zero _)

theorem unpack_ofInt_pos {n : Nat} (positive : 0 < n) (small : n ≤ 2 ^ 53) :
    (ofInt n).unpack =
      .finite .positive (digitsOfNat n) (exponentOf n) (digitsOfNat_pos positive small) := by
  obtain ⟨normal, bounded⟩ := digitsOfNat_bounds positive small
  have bits := log2_le small
  have rounded : UnpackedFloat.ofInt .binary64 n =
      .finite .positive (digitsOfNat n) (exponentOf n) (digitsOfNat_pos positive small) := by
    have above : compare (n : Int) 0 = .gt := compare_gt_iff_gt.mpr (by omega)
    rw [UnpackedFloat.ofInt, UnpackedFloat.normalize, above]
    exact round_eq positive small
  rw [ofInt, Float.Model.ofInt, rounded]
  refine unpack_ofModel_pack (unpack_pack_finite _ normal bounded ?_ ?_)
  · rw [exponentOf]
    omega
  · rw [exponentOf]
    omega

theorem unpack_ofInt_neg {n : Nat} (positive : 0 < n) (small : n ≤ 2 ^ 53) :
    (ofInt (-n)).unpack =
      .finite .negative (digitsOfNat n) (exponentOf n) (digitsOfNat_pos positive small) := by
  obtain ⟨normal, bounded⟩ := digitsOfNat_bounds positive small
  have bits := log2_le small
  have rounded : UnpackedFloat.ofInt .binary64 (-n) =
      .finite .negative (digitsOfNat n) (exponentOf n) (digitsOfNat_pos positive small) := by
    have below : compare (-n : Int) 0 = .lt := compare_lt_iff_lt.mpr (by omega)
    rw [UnpackedFloat.ofInt, UnpackedFloat.normalize, below]
    have magnitude : (- -(n : Int)).toNat = n := by omega
    dsimp only
    rw [magnitude]
    exact round_eq positive small
  rw [ofInt, Float.Model.ofInt, rounded]
  refine unpack_ofModel_pack (unpack_pack_finite _ normal bounded ?_ ?_)
  · rw [exponentOf]
    omega
  · rw [exponentOf]
    omega

/-! ## Order -/

/-- First by the exponent, then by the digits. -/
theorem compare_digits {a b : Nat} (positive : 0 < a) (small : a ≤ 2 ^ 53) (positive' : 0 < b)
    (small' : b ≤ 2 ^ 53) :
    (compare (exponentOf a) (exponentOf b)).then (compare (digitsOfNat a) (digitsOfNat b)) =
      compare a b := by
  have apart : ∀ {x y : Nat}, 0 < x → x.log2 < y.log2 → x < y := by
    intro x y nonzero less
    have above : y ≠ 0 := by
      rintro rfl
      exact absurd less (by simp)
    exact Nat.lt_log2_self.trans_le
      ((Nat.pow_le_pow_right (by decide) less).trans (Nat.log2_self_le above))
  rcases lt_trichotomy a.log2 b.log2 with less | same | more
  · have exponents : compare (exponentOf a) (exponentOf b) = .lt := by
      rw [compare_lt_iff_lt, exponentOf, exponentOf]
      omega
    rw [exponents, compare_lt_iff_lt.mpr (apart positive less)]
    rfl
  · have exponents : compare (exponentOf a) (exponentOf b) = .eq := by
      rw [compare_eq_iff_eq, exponentOf, exponentOf, same]
    rw [exponents, Ordering.then]
    by_cases few : b.log2 ≤ 52
    · have scale : 0 < 2 ^ (52 - b.log2) := Nat.two_pow_pos _
      rw [digitsOfNat, digitsOfNat, same, if_pos few, if_pos few]
      rcases lt_trichotomy a b with below | rfl | above
      · rw [compare_lt_iff_lt.mpr below, compare_lt_iff_lt.mpr (Nat.mul_lt_mul_of_pos_right below scale)]
      · rw [compare_eq_iff_eq.mpr rfl, compare_eq_iff_eq.mpr rfl]
      · rw [compare_gt_iff_gt.mpr above, compare_gt_iff_gt.mpr (Nat.mul_lt_mul_of_pos_right above scale)]
    · rw [eq_of_many small' few, eq_of_many small (by rw [same]; exact few)]
      rfl
  · have exponents : compare (exponentOf a) (exponentOf b) = .gt := by
      rw [compare_gt_iff_gt, exponentOf, exponentOf]
      omega
    rw [exponents, compare_gt_iff_gt.mpr (apart positive' more)]
    rfl

/-- Doubles order small integers as they are ordered. -/
theorem partialCmp_ofInt {a b : Int} (small : a.natAbs ≤ 2 ^ 53) (small' : b.natAbs ≤ 2 ^ 53) :
    (ofInt a).partialCmp (ofInt b) = some (compare a b) := by
  have cases_ : ∀ n : Int, n.natAbs ≤ 2 ^ 53 →
      n = 0 ∨ (∃ m : Nat, 0 < m ∧ m ≤ 2 ^ 53 ∧ n = m) ∨ ∃ m : Nat, 0 < m ∧ m ≤ 2 ^ 53 ∧ n = -m := by
    intro n bounded
    rcases lt_trichotomy n 0 with below | zero | above
    · exact Or.inr (Or.inr ⟨n.natAbs, by omega, bounded, by omega⟩)
    · exact Or.inl zero
    · exact Or.inr (Or.inl ⟨n.natAbs, by omega, bounded, by omega⟩)
  change UnpackedFloat.compare (ofInt a).unpack (ofInt b).unpack = _
  rcases cases_ a small with rfl | ⟨m, positive, bounded, rfl⟩ | ⟨m, positive, bounded, rfl⟩
  · rcases cases_ b small' with rfl | ⟨m, positive, bounded, rfl⟩ | ⟨m, positive, bounded, rfl⟩
    · rw [unpack_ofInt_zero]
      rfl
    · rw [unpack_ofInt_zero, unpack_ofInt_pos positive bounded, compare_lt_iff_lt.mpr (by omega)]
      rfl
    · rw [unpack_ofInt_zero, unpack_ofInt_neg positive bounded, compare_gt_iff_gt.mpr (by omega)]
      rfl
  · rcases cases_ b small' with rfl | ⟨k, positive', bounded', rfl⟩ | ⟨k, positive', bounded', rfl⟩
    · rw [unpack_ofInt_zero, unpack_ofInt_pos positive bounded, compare_gt_iff_gt.mpr (by omega)]
      rfl
    · rw [unpack_ofInt_pos positive bounded, unpack_ofInt_pos positive' bounded']
      refine congrArg some ((compare_digits positive bounded positive' bounded').trans ?_)
      rcases lt_trichotomy m k with below | rfl | above
      · rw [compare_lt_iff_lt.mpr below, compare_lt_iff_lt.mpr (by omega)]
      · rw [compare_eq_iff_eq.mpr rfl, compare_eq_iff_eq.mpr rfl]
      · rw [compare_gt_iff_gt.mpr above, compare_gt_iff_gt.mpr (by omega)]
    · rw [unpack_ofInt_pos positive bounded, unpack_ofInt_neg positive' bounded',
        compare_gt_iff_gt.mpr (by omega)]
      rfl
  · rcases cases_ b small' with rfl | ⟨k, positive', bounded', rfl⟩ | ⟨k, positive', bounded', rfl⟩
    · rw [unpack_ofInt_zero, unpack_ofInt_neg positive bounded, compare_lt_iff_lt.mpr (by omega)]
      rfl
    · rw [unpack_ofInt_neg positive bounded, unpack_ofInt_pos positive' bounded',
        compare_lt_iff_lt.mpr (by omega)]
      rfl
    · rw [unpack_ofInt_neg positive bounded, unpack_ofInt_neg positive' bounded']
      refine congrArg some ((congrArg Ordering.swap
        (compare_digits positive bounded positive' bounded')).trans ?_)
      rcases lt_trichotomy m k with below | rfl | above
      · rw [compare_lt_iff_lt.mpr below, compare_gt_iff_gt.mpr (by omega)]
        rfl
      · rw [compare_eq_iff_eq.mpr rfl, compare_eq_iff_eq.mpr rfl]
        rfl
      · rw [compare_gt_iff_gt.mpr above, compare_lt_iff_lt.mpr (by omega)]
        rfl

end Squrust.Foundation.Float64
