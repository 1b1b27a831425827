import Mathlib
import Squrust.Foundation.DoubleOrder
import Squrust.Foundation.ExactIntegers
import Squrust.Foundation.NearestEven

/-!
# Integers in doubles

A double can be an integer (`IsWhole`). Sums, differences and products of such doubles
are the exact results rounded to 53 digits, and so is the double of an integer; they are
ordered as the integers are, and turned back into them (`IsWhole.add`, `isWhole_ofInt`,
`IsWhole.partialCmp`, `IsWhole.toInt64`).

Integers from 2^1023 on are left out (`finiteBound`).
-/

set_option autoImplicit false

namespace Squrust.Foundation.Float64

open Float.Model Float.Model.UnpackedFloat

/-! ## Shifting with rounding -/

/-- The digits behind the point are kept as two bits. -/
theorem shifted (m d : Nat) :
    ExtendedMantissa.ofMantissaAndAccuracy m .exact >>> d =
      ⟨m / 2 ^ d, decide (2 ^ d ≤ 2 * (m % 2 ^ d)), decide (2 * (m % 2 ^ d) % 2 ^ d ≠ 0)⟩ := by
  induction d with
  | zero =>
      change ExtendedMantissa.mk m false false = _
      simp [Nat.mod_one]
  | succ d ih =>
      change ExtendedMantissa.shiftRightOne (ExtendedMantissa.ofMantissaAndAccuracy m .exact >>> d) = _
      rw [ih, ExtendedMantissa.shiftRightOne]
      have power : 2 ^ (d + 1) = 2 * 2 ^ d := Nat.pow_succ'
      have positive : 0 < 2 ^ d := Nat.two_pow_pos d
      have rest : m % 2 ^ (d + 1) = m % 2 ^ d + 2 ^ d * (m / 2 ^ d % 2) := Nat.mod_pow_succ
      have within : m % 2 ^ d < 2 ^ d := Nat.mod_lt _ positive
      have bit : m / 2 ^ d % 2 = 0 ∨ m / 2 ^ d % 2 = 1 := Nat.mod_two_eq_zero_or_one _
      congr 1
      · rw [Nat.div_div_eq_div_mul, Nat.pow_succ]
      · rw [rest, power, Bool.eq_iff_iff, bne_iff_ne, decide_eq_true_iff]
        rcases bit with even | odd
        · rw [even]
          omega
        · rw [odd]
          omega
      · have behind : 2 * (m % 2 ^ (d + 1)) % 2 ^ (d + 1) = 2 * (m % 2 ^ d) := by
          rw [rest, power, Nat.mul_mod_mul_left, Nat.add_mul_mod_self_left, Nat.mod_mod]
        rw [behind, Bool.eq_iff_iff, Bool.or_eq_true, decide_eq_true_iff, decide_eq_true_iff,
          decide_eq_true_iff]
        by_cases less : 2 * (m % 2 ^ d) < 2 ^ d
        · rw [Nat.mod_eq_of_lt less]
          omega
        · omega

/-- Rounding what is kept. -/
theorem roundedMantissa_shifted (m d : Nat) :
    (ExtendedMantissa.ofMantissaAndAccuracy m .exact >>> d).roundedMantissa = roundShift m d := by
  have positive : 0 < 2 ^ d := Nat.two_pow_pos d
  have within : m % 2 ^ d < 2 ^ d := Nat.mod_lt _ positive
  rw [shifted, roundShift, ExtendedMantissa.roundedMantissa]
  by_cases less : 2 * (m % 2 ^ d) < 2 ^ d
  · rw [if_pos less, decide_eq_false (by omega), Nat.mod_eq_of_lt less]
    by_cases none : 2 * (m % 2 ^ d) = 0
    · rw [decide_eq_false (by omega)]
      rfl
    · rw [decide_eq_true none]
      rfl
  · rw [if_neg less, decide_eq_true (by omega)]
    by_cases middle : 2 * (m % 2 ^ d) = 2 ^ d
    · rw [if_pos middle, middle, Nat.mod_self, decide_eq_false (by omega)]
      rfl
    · have rest : 2 * (m % 2 ^ d) % 2 ^ d = 2 * (m % 2 ^ d) - 2 ^ d := by
        rw [Nat.mod_eq_sub_mod (by omega), Nat.mod_eq_of_lt (by omega)]
      rw [if_neg middle, rest, decide_eq_true (by omega)]
      rfl

/-! ## Digits and exponents -/

/-- A number given by digits and an exponent, which may be negative. -/
theorem scaled_cases {m n : Nat} {e : Int} (scaled : (m : ℚ) * 2 ^ e = n) :
    (∃ k : Nat, e = k ∧ n = m * 2 ^ k) ∨ ∃ k : Nat, e = -k ∧ m = n * 2 ^ k := by
  rcases Int.eq_nat_or_neg e with ⟨k, rfl | rfl⟩
  · left
    refine ⟨k, rfl, ?_⟩
    rw [zpow_natCast] at scaled
    exact_mod_cast scaled.symm
  · right
    refine ⟨k, rfl, ?_⟩
    have power : (2 : ℚ) ^ k ≠ 0 := by positivity
    rw [zpow_neg, zpow_natCast, mul_inv_eq_iff_eq_mul₀ power] at scaled
    exact_mod_cast scaled

theorem log2_scaled {m n : Nat} {e : Int} (scaled : (m : ℚ) * 2 ^ e = n) (positive : n ≠ 0) :
    (m.log2 : Int) + e = n.log2 := by
  rcases scaled_cases scaled with ⟨k, rfl, rfl⟩ | ⟨k, rfl, rfl⟩
  · have some_ : m ≠ 0 := by
      rintro rfl
      simp at positive
    rw [log2_mul_pow some_]
    push_cast
    ring
  · rw [log2_mul_pow positive]
    push_cast
    ring

/-- Lowering the exponent gives the same number. -/
theorem scaled_shift {m : ℚ} {e e' : Int} (le : e' ≤ e) :
    m * 2 ^ (e - e').toNat * 2 ^ e' = m * 2 ^ e := by
  obtain ⟨k, rfl⟩ : ∃ k : Nat, e = e' + k := ⟨(e - e').toNat, by omega⟩
  have shift : (e' + k - e').toNat = k := by omega
  rw [shift, mul_assoc, ← zpow_natCast, ← zpow_add₀ (by norm_num : (2 : ℚ) ≠ 0), add_comm]

/-- Digits, rounded to the exponent of the 53 digits of an integer, are those of the integer. -/
theorem roundShift_scaled {m n d : Nat} {e : Int} (scaled : (m : ℚ) * 2 ^ e = n) (positive : n ≠ 0)
    (target : e + d = n.log2 - 52) :
    2 ^ 52 ≤ roundShift m d ∧ roundShift m d ≤ 2 ^ 53 ∧
      (roundShift m d : ℚ) * 2 ^ (e + d) = nearestNat n := by
  by_cases many : 52 ≤ n.log2
  · have same : roundShift m d = roundShift n (excess n) := by
      rcases scaled_cases scaled with ⟨k, rfl, rfl⟩ | ⟨k, rfl, rfl⟩
      · have sum : excess (m * 2 ^ k) = d + k := by
          rw [excess]
          omega
        rw [sum, roundShift_mul_pow]
      · have sum : d = excess n + k := by
          rw [excess]
          omega
        rw [sum, roundShift_mul_pow]
    have exponent : e + d = (excess n : Nat) := by
      rw [excess]
      omega
    obtain ⟨lower, upper⟩ := roundShift_excess_bounds many
    rw [same, exponent, zpow_natCast]
    exact ⟨lower, upper, by rw [nearestNat]; push_cast; rfl⟩
  · -- There is room for digits behind the point, and they are zero.
    rcases scaled_cases scaled with ⟨k, rfl, rfl⟩ | ⟨k, rfl, rfl⟩
    · omega
    · obtain ⟨j, room⟩ : ∃ j : Nat, k = j + d := ⟨52 - n.log2, by omega⟩
      subst room
      have digits : roundShift (n * 2 ^ (j + d)) d = n * 2 ^ j := by
        rw [Nat.pow_add, ← Nat.mul_assoc, roundShift_exact]
      have count : j = 52 - n.log2 := by omega
      have lower := Nat.log2_self_le positive
      have upper := @Nat.lt_log2_self n
      have low : 2 ^ 52 = 2 ^ n.log2 * 2 ^ j := by
        rw [← Nat.pow_add]
        congr 1
        omega
      have high : 2 ^ 53 = 2 ^ (n.log2 + 1) * 2 ^ j := by
        rw [← Nat.pow_add]
        congr 1
        omega
      have small : n ≤ 2 ^ 53 := upper.le.trans (Nat.pow_le_pow_right (by decide) (by omega))
      rw [digits, nearestNat_of_le small]
      refine ⟨low ▸ Nat.mul_le_mul_right _ lower, high ▸ Nat.mul_le_mul_right _ upper.le, ?_⟩
      have exponent : -((j + d : Nat) : Int) + d = -j := by
        push_cast
        ring
      have power : (2 : ℚ) ^ j ≠ 0 := by positivity
      rw [exponent, zpow_neg, zpow_natCast]
      push_cast
      field_simp

/-! ## Rounding to a double -/

/-- An unpacked double that is an integer: zero, or 53 digits and an exponent. -/
inductive Whole : UnpackedFloat → Int → Prop where
  | zero (sign : Sign) : Whole (.zero sign) 0
  | finite {sign : Sign} {m : Nat} {e : Int} {n : Nat} (positive : 0 < m) (normal : 2 ^ 52 ≤ m)
      (small : m < 2 ^ 53) (low : -52 ≤ e) (high : e ≤ 971) (scaled : (m : ℚ) * 2 ^ e = n) :
      Whole (.finite sign m e positive) (sign.apply n)

/-- Integers below it are rounded to finite doubles. -/
def finiteBound : Nat := 2 ^ 1023

theorem lt_finiteBound {n : Nat} (small : n ≤ 2 ^ 200) : n < finiteBound :=
  small.trans_lt (Nat.pow_lt_pow_right (by decide) (by decide))

theorem shiftToTargetExponent_scaled {m n d : Nat} {e : Int} (scaled : (m : ℚ) * 2 ^ e = n)
    (positive : n ≠ 0) (target : e + d = n.log2 - 52) :
    shiftToTargetExponent .binary64 m e .exact =
      (ExtendedMantissa.ofMantissaAndAccuracy m .exact >>> d, e + d) := by
  have logs := log2_scaled scaled positive
  have amount : (Format.binary64.targetExponent (totalExponent m e) - e).toNat = d := by
    rw [targetExponent_eq, totalExponent]
    omega
  rw [shiftToTargetExponent]
  simp only [shiftToExponent, amount]

/-- Rounding up to the next power of two takes one digit more. -/
theorem shiftToTargetExponent_carry {e : Int} (low : -1074 ≤ e) :
    shiftToTargetExponent .binary64 (2 ^ 53) e .exact = (⟨2 ^ 52, false, false⟩, e + 1) := by
  have digits : (2 ^ 53 : Nat).log2 = 53 := Nat.log2_two_pow
  have amount : (Format.binary64.targetExponent (totalExponent (2 ^ 53) e) - e).toNat = 1 := by
    rw [targetExponent_eq, totalExponent, digits]
    omega
  rw [shiftToTargetExponent]
  simp only [shiftToExponent, amount]
  rfl

theorem roundWithAccuracy_whole {sign : Sign} {m n : Nat} {e : Int} (scaled : (m : ℚ) * 2 ^ e = n)
    (positive : n ≠ 0) (room : e ≤ n.log2 - 52) (bounded : n < finiteBound) :
    Whole (roundWithAccuracy .binary64 sign m e .exact) (sign.apply (nearestNat n)) := by
  obtain ⟨d, target⟩ : ∃ d : Nat, e + d = n.log2 - 52 := ⟨(n.log2 - 52 - e).toNat, by omega⟩
  obtain ⟨lower, upper, value⟩ := roundShift_scaled scaled positive target
  have logs : n.log2 < 1023 := (Nat.log2_lt positive).mpr bounded
  rw [roundWithAccuracy]
  simp only [shiftToTargetExponent_scaled scaled positive target, roundedMantissa_shifted]
  rcases upper.lt_or_eq with small | full
  · simp only [shiftToTargetExponent_full lower small (by omega : -1074 ≤ e + d)]
    rw [dif_neg (by omega)]
    exact .finite _ lower small (by omega) (by omega) value
  · rw [full] at value
    simp only [full, shiftToTargetExponent_carry (by omega : -1074 ≤ e + d)]
    rw [dif_neg (by decide)]
    refine .finite _ le_rfl (by decide) (by omega) (by omega) ?_
    rw [zpow_add₀ (by norm_num), ← value]
    push_cast
    ring

theorem round_whole {sign : Sign} {m n : Nat} {e : Int} (scaled : (m : ℚ) * 2 ^ e = n)
    (positive : n ≠ 0) (bounded : n < finiteBound) :
    Whole (UnpackedFloat.round .binary64 sign m e) (sign.apply (nearestNat n)) := by
  have logs := log2_scaled scaled positive
  have target : Format.binary64.targetExponent (totalExponent m e) = n.log2 - 52 := by
    rw [targetExponent_eq, totalExponent]
    omega
  rw [UnpackedFloat.round]
  simp only [target, decreaseExponent, Nat.shiftLeft_eq]
  rcases le_total e (n.log2 - 52) with room | many
  · have none : (e - ((n.log2 : Int) - 52)).toNat = 0 := by omega
    simp only [none, pow_zero, Nat.mul_one, Nat.cast_zero, sub_zero]
    exact roundWithAccuracy_whole scaled positive room bounded
  · have lowered : e - ((e - ((n.log2 : Int) - 52)).toNat : Nat) = n.log2 - 52 := by omega
    rw [lowered]
    refine roundWithAccuracy_whole ?_ positive le_rfl bounded
    rw [← scaled, ← scaled_shift many]
    push_cast
    rfl

/-- A number that is an integer is rounded to 53 digits. -/
theorem normalize_whole {m v : Int} {e : Int} (scaled : (m : ℚ) * 2 ^ e = v)
    (bounded : v.natAbs < finiteBound) (zeroSign : Sign) :
    Whole (UnpackedFloat.normalize .binary64 m e zeroSign) (nearest v) := by
  have power : (0 : ℚ) < 2 ^ e := by positivity
  rw [UnpackedFloat.normalize]
  rcases lt_trichotomy m 0 with below | rfl | above
  · have negative : v < 0 := by
      have : (v : ℚ) < 0 := by
        rw [← scaled]
        exact mul_neg_of_neg_of_pos (by exact_mod_cast below) power
      exact_mod_cast this
    obtain ⟨k, rfl⟩ : ∃ k : Nat, m = -k := ⟨(-m).toNat, by omega⟩
    obtain ⟨n, rfl⟩ : ∃ n : Nat, v = -n := ⟨(-v).toNat, by omega⟩
    rw [Int.natAbs_neg, Int.natAbs_natCast] at bounded
    rw [compare_lt_iff_lt.mpr below, nearest_neg, nearest_natCast]
    have magnitude : (- -(k : Int)).toNat = k := by omega
    dsimp only
    rw [magnitude]
    refine @round_whole .negative k n e ?_ (by omega) bounded
    push_cast at scaled
    linarith
  · obtain rfl : v = 0 := by
      have : (v : ℚ) = 0 := by rw [← scaled]; simp
      exact_mod_cast this
    exact .zero _
  · have positive : 0 < v := by
      have : (0 : ℚ) < v := by
        rw [← scaled]
        exact mul_pos (by exact_mod_cast above) power
      exact_mod_cast this
    obtain ⟨k, rfl⟩ : ∃ k : Nat, m = k := ⟨m.toNat, by omega⟩
    obtain ⟨n, rfl⟩ : ∃ n : Nat, v = n := ⟨v.toNat, by omega⟩
    rw [Int.natAbs_natCast] at bounded
    rw [compare_gt_iff_gt.mpr above, nearest_natCast]
    exact @round_whole .positive k n e (by exact_mod_cast scaled) (by omega) bounded

/-! ## Operations -/

namespace Whole

variable {x y : UnpackedFloat} {a b : Int}

theorem signed {sign : Sign} {m n : Nat} {e : Int} (scaled : (m : ℚ) * 2 ^ e = n) :
    ((sign.apply m : Int) : ℚ) * 2 ^ e = (sign.apply n : Int) := by
  cases sign with
  | positive => exact scaled
  | negative =>
      change ((-(m : Int) : Int) : ℚ) * 2 ^ e = (-(n : Int) : Int)
      push_cast
      rw [neg_mul, scaled]

/-- Digits at a lower exponent. -/
theorem aligned {sign : Sign} {m n : Nat} {e least : Int} (scaled : (m : ℚ) * 2 ^ e = n)
    (le : least ≤ e) :
    ((sign.apply (m <<< (e - least).toNat : Nat) : Int) : ℚ) * 2 ^ least = (sign.apply n : Int) := by
  apply signed
  rw [Nat.shiftLeft_eq, ← scaled, ← scaled_shift le]
  push_cast
  rfl

/-- A double has no digits to round. -/
theorem nearest_eq (whole : Whole x a) : nearest a = a := by
  cases whole with
  | zero => rfl
  | @finite sign m e n positive normal small low high scaled =>
      have kept : nearestNat n = n := by
        rcases scaled_cases scaled with ⟨k, _, rfl⟩ | ⟨k, _, rfl⟩
        · exact nearestNat_mul_pow small.le k
        · exact nearestNat_of_le ((Nat.le_mul_of_pos_right n (Nat.two_pow_pos k)).trans small.le)
      cases sign with
      | positive => exact (nearest_natCast n).trans (congrArg Nat.cast kept)
      | negative =>
          change nearest (-(n : Int)) = -(n : Int)
          rw [nearest_neg, nearest_natCast, kept]

theorem neg_finite {sign : Sign} {m : Nat} {e : Int} {positive : 0 < m}
    (whole : Whole (.finite sign m e positive) a) : Whole (.finite (-sign) m e positive) (-a) := by
  cases whole with
  | @finite _ _ _ n _ normal small low high scaled =>
      have flipped : -(sign.apply n) = (-sign).apply n := by
        cases sign with
        | positive => rfl
        | negative => exact neg_neg _
      rw [flipped]
      exact .finite _ normal small low high scaled

theorem add (left : Whole x a) (right : Whole y b) (bounded : (a + b).natAbs < finiteBound) :
    Whole (UnpackedFloat.add .binary64 x y) (nearest (a + b)) := by
  cases left with
  | zero sign =>
      rw [zero_add, right.nearest_eq]
      cases right with
      | zero sign' =>
          rw [UnpackedFloat.add]
          split
          · exact .zero _
          · exact .zero _
      | finite positive normal small low high scaled =>
          exact .finite positive normal small low high scaled
  | @finite sign m e n positive normal small low high scaled =>
      cases right with
      | zero sign' =>
          have whole : Whole (.finite sign m e positive) (sign.apply n) :=
            .finite positive normal small low high scaled
          rw [add_zero, whole.nearest_eq]
          exact whole
      | @finite sign' m' e' n' positive' normal' small' low' high' scaled' =>
          refine normalize_whole ?_ bounded _
          rw [Int.cast_add, Int.cast_add, add_mul, aligned scaled (min_le_left e e'), aligned scaled' (min_le_right e e')]

theorem sub (left : Whole x a) (right : Whole y b) (bounded : (a - b).natAbs < finiteBound) :
    Whole (UnpackedFloat.sub .binary64 x y) (nearest (a - b)) := by
  cases left with
  | zero sign =>
      rw [zero_sub, nearest_neg, right.nearest_eq]
      cases right with
      | zero sign' =>
          rw [UnpackedFloat.sub]
          split
          · exact .zero _
          · exact .zero _
      | finite positive normal small low high scaled =>
          exact neg_finite (.finite positive normal small low high scaled)
  | @finite sign m e n positive normal small low high scaled =>
      cases right with
      | zero sign' =>
          have whole : Whole (.finite sign m e positive) (sign.apply n) :=
            .finite positive normal small low high scaled
          rw [sub_zero, whole.nearest_eq]
          exact whole
      | @finite sign' m' e' n' positive' normal' small' low' high' scaled' =>
          refine normalize_whole ?_ bounded _
          rw [Int.cast_sub, Int.cast_sub, sub_mul, aligned scaled (min_le_left e e'), aligned scaled' (min_le_right e e')]

theorem nearest_apply (sign : Sign) (n : Nat) : nearest (sign.apply n) = sign.apply (nearestNat n) := by
  cases sign with
  | positive => exact nearest_natCast n
  | negative =>
      change nearest (-(n : Int)) = -(nearestNat n : Int)
      rw [nearest_neg, nearest_natCast]

theorem apply_mul (sign sign' : Sign) (n n' : Nat) :
    sign.apply n * sign'.apply n' = (sign * sign').apply (n * n' : Nat) := by
  cases sign with
  | positive =>
      cases sign' with
      | positive => exact (Nat.cast_mul n n').symm
      | negative =>
          change (n : Int) * -(n' : Int) = -((n * n' : Nat) : Int)
          push_cast
          ring
  | negative =>
      cases sign' with
      | positive =>
          change -(n : Int) * (n' : Int) = -((n * n' : Nat) : Int)
          push_cast
          ring
      | negative =>
          change -(n : Int) * -(n' : Int) = ((n * n' : Nat) : Int)
          push_cast
          ring

theorem natAbs_apply (sign : Sign) (n : Nat) : (sign.apply n).natAbs = n := by
  cases sign with
  | positive => rfl
  | negative => exact (Int.natAbs_neg _).trans (Int.natAbs_natCast n)

theorem mul (left : Whole x a) (right : Whole y b) (bounded : (a * b).natAbs < finiteBound) :
    Whole (UnpackedFloat.mul .binary64 x y) (nearest (a * b)) := by
  cases left with
  | zero sign =>
      rw [zero_mul]
      cases right with
      | zero sign' => exact .zero _
      | finite => exact .zero _
  | @finite sign m e n positive normal small low high scaled =>
      cases right with
      | zero sign' =>
          rw [mul_zero]
          exact .zero _
      | @finite sign' m' e' n' positive' normal' small' low' high' scaled' =>
          have product : ((m * m' : Nat) : ℚ) * 2 ^ (e + e') = (n * n' : Nat) := by
            rw [zpow_add₀ (by norm_num)]
            push_cast
            rw [← scaled, ← scaled']
            ring
          have some_ : n * n' ≠ 0 := by
            rintro none
            rw [none, Nat.cast_zero, mul_eq_zero] at product
            rcases product with digits | power
            · exact absurd digits (by exact_mod_cast (Nat.mul_pos positive positive').ne')
            · exact absurd power (by positivity)
          have logs := log2_scaled product some_
          have many : 2 ^ 104 ≤ m * m' := by
            calc 2 ^ 104 = 2 ^ 52 * 2 ^ 52 := by norm_num
              _ ≤ m * m' := Nat.mul_le_mul normal normal'
          have digits : 104 ≤ (m * m').log2 := (Nat.le_log2 (Nat.mul_pos positive positive').ne').mpr many
          rw [apply_mul, natAbs_apply] at bounded
          rw [apply_mul, nearest_apply]
          exact roundWithAccuracy_whole product some_ (by omega) bounded

/-- The integer, whatever stands for the infinities. -/
theorem toInt_eq (whole : Whole x a) (least greatest : Int) : x.toInt least greatest = a := by
  cases whole with
  | zero => rfl
  | @finite sign m e n positive normal small low high scaled =>
      change sign.apply (shiftToExponent _ _ .exact 0).1.mantissa = sign.apply n
      congr 2
      simp only [shiftToExponent, shifted, Nat.shiftLeft_eq]
      rcases scaled_cases scaled with ⟨k, rfl, rfl⟩ | ⟨k, rfl, rfl⟩
      · have shift : ((k : Int) - 0).toNat = k := by omega
        have none : (0 - ((k : Int) - (k : Int))).toNat = 0 := by omega
        rw [shift, none, Nat.pow_zero, Nat.div_one]
      · have none : (-(k : Int) - 0).toNat = 0 := by omega
        have shift : (0 - (-(k : Int) - ((0 : Nat) : Int))).toNat = k := by omega
        rw [none, shift, Nat.pow_zero, Nat.mul_one, Nat.mul_div_cancel _ (Nat.two_pow_pos k)]

end Whole

/-! ## Order -/

/-- First by the exponent, then by the digits. -/
theorem compare_scaled {m m' n n' : Nat} {e e' : Int} (normal : 2 ^ 52 ≤ m) (small : m < 2 ^ 53)
    (normal' : 2 ^ 52 ≤ m') (small' : m' < 2 ^ 53) (scaled : (m : ℚ) * 2 ^ e = n)
    (scaled' : (m' : ℚ) * 2 ^ e' = n') :
    (compare e e').then (compare m m') = compare n n' := by
  have apart : ∀ {m m' n n' : Nat} {e e' : Int}, m < 2 ^ 53 → 2 ^ 52 ≤ m' →
      (m : ℚ) * 2 ^ e = n → (m' : ℚ) * 2 ^ e' = n' → e < e' → n < n' := by
    intro m m' n n' e e' small normal scaled scaled' less
    have values : (n : ℚ) < n' := by
      calc (n : ℚ) = m * 2 ^ e := scaled.symm
        _ < 2 ^ 53 * 2 ^ e := mul_lt_mul_of_pos_right (by exact_mod_cast small) (by positivity)
        _ = 2 ^ 52 * 2 ^ (e + 1) := by
            rw [zpow_add₀ (by norm_num)]
            ring
        _ ≤ 2 ^ 52 * 2 ^ e' := by
            have powers : (2 : ℚ) ^ (e + 1) ≤ 2 ^ e' := zpow_le_zpow_right₀ (by norm_num) less
            exact mul_le_mul_of_nonneg_left powers (by positivity)
        _ ≤ m' * 2 ^ e' := mul_le_mul_of_nonneg_right (by exact_mod_cast normal) (by positivity)
        _ = n' := scaled'
    exact_mod_cast values
  rcases lt_trichotomy e e' with less | rfl | more
  · rw [compare_lt_iff_lt.mpr less, compare_lt_iff_lt.mpr (apart small normal' scaled scaled' less)]
    rfl
  · have power : (0 : ℚ) < 2 ^ e := by positivity
    have orders : (n < n' ↔ m < m') ∧ (n' < n ↔ m' < m) := by
      have first : ((n : ℚ) < n' ↔ (m : ℚ) < m') := by
        rw [← scaled, ← scaled']
        exact mul_lt_mul_iff_left₀ power
      have second : ((n' : ℚ) < n ↔ (m' : ℚ) < m) := by
        rw [← scaled, ← scaled']
        exact mul_lt_mul_iff_left₀ power
      exact ⟨by exact_mod_cast first, by exact_mod_cast second⟩
    rw [compare_eq_iff_eq.mpr rfl]
    change compare m m' = compare n n'
    rcases lt_trichotomy m m' with less | same | more
    · rw [compare_lt_iff_lt.mpr less, compare_lt_iff_lt.mpr (orders.1.mpr less)]
    · rw [compare_eq_iff_eq.mpr same, compare_eq_iff_eq.mpr (by omega)]
    · rw [compare_gt_iff_gt.mpr more, compare_gt_iff_gt.mpr (orders.2.mpr more)]
  · rw [compare_gt_iff_gt.mpr more, compare_gt_iff_gt.mpr (apart small' normal scaled' scaled more)]
    rfl

theorem compare_neg_natCast (n n' : Nat) :
    Ord.compare (-(n : Int)) (-(n' : Int)) = (Ord.compare n n').swap := by
  rw [compare_neg, compare_natCast]

theorem scaled_pos {m n : Nat} {e : Int} (normal : 2 ^ 52 ≤ m)
    (scaled : (m : ℚ) * 2 ^ e = n) : 0 < n := by
  have value : (0 : ℚ) < n := by
    rw [← scaled]
    have digits : (0 : ℚ) < m := by exact_mod_cast (Nat.two_pow_pos 52).trans_le normal
    positivity
  exact_mod_cast value

/-- **Doubles that are integers are ordered as these.** -/
theorem Whole.compare {x y : UnpackedFloat} {a b : Int} (left : Whole x a) (right : Whole y b) :
    x.compare y = some (Ord.compare a b) := by
  cases left with
  | zero sign =>
      cases right with
      | zero sign' => rfl
      | @finite sign' m' e' n' positive' normal' small' low' high' scaled' =>
          have above := scaled_pos normal' scaled'
          cases sign' with
          | positive =>
              change some Ordering.lt = some (Ord.compare (0 : Int) (n' : Int))
              rw [compare_lt_iff_lt.mpr (by omega)]
          | negative =>
              change some Ordering.gt = some (Ord.compare (0 : Int) (-(n' : Int)))
              rw [compare_gt_iff_gt.mpr (by omega)]
  | @finite sign m e n positive normal small low high scaled =>
      have above := scaled_pos normal scaled
      cases right with
      | zero sign' =>
          cases sign with
          | positive =>
              change some Ordering.gt = some (Ord.compare (n : Int) 0)
              rw [compare_gt_iff_gt.mpr (by omega)]
          | negative =>
              change some Ordering.lt = some (Ord.compare (-(n : Int)) 0)
              rw [compare_lt_iff_lt.mpr (by omega)]
      | @finite sign' m' e' n' positive' normal' small' low' high' scaled' =>
          have above' := scaled_pos normal' scaled'
          have digits := compare_scaled normal small normal' small' scaled scaled'
          cases sign with
          | positive =>
              cases sign' with
              | positive =>
                  exact congrArg some (digits.trans (compare_natCast n n').symm)
              | negative =>
                  change some Ordering.gt = some (Ord.compare (n : Int) (-(n' : Int)))
                  rw [compare_gt_iff_gt.mpr (by omega)]
          | negative =>
              cases sign' with
              | positive =>
                  change some Ordering.lt = some (Ord.compare (-(n : Int)) (n' : Int))
                  rw [compare_lt_iff_lt.mpr (by omega)]
              | negative =>
                  exact congrArg some
                    ((congrArg Ordering.swap digits).trans (compare_neg_natCast n n').symm)

/-! ## Doubles -/

/-- The double is this integer. -/
def IsWhole (x : Float64) (v : Int) : Prop := Whole x.unpack v

/-- An integer is unpacked as it was packed. -/
theorem Whole.stays {u : UnpackedFloat} {v : Int} (whole : Whole u v) :
    UnpackedFloat.unpack .binary64 (UnpackedFloat.pack .binary64 u) = u := by
  cases whole with
  | zero sign => exact unpack_pack_zero sign
  | finite positive normal small low high scaled =>
      exact unpack_pack_finite positive normal small (by omega) high

theorem Whole.isWhole {u : UnpackedFloat} {v : Int} (whole : Whole u v) : IsWhole (ofModel (.pack u)) v := by
  rw [IsWhole, unpack_ofModel_pack whole.stays]
  exact whole

theorem isWhole_zero : IsWhole 0 0 := by
  have unpacked : (0 : Float64).unpack = .zero .positive := rfl
  rw [IsWhole, unpacked]
  exact .zero _

/-- The double of an integer is the nearest one. -/
theorem isWhole_ofInt {v : Int} (bounded : v.natAbs < finiteBound) : IsWhole (ofInt v) (nearest v) :=
  (normalize_whole (by simp) bounded .positive).isWhole

namespace IsWhole

variable {x y : Float64} {a b : Int}

theorem nearest_eq (whole : IsWhole x a) : nearest a = a := Whole.nearest_eq whole

theorem add (left : IsWhole x a) (right : IsWhole y b) (bounded : (a + b).natAbs < finiteBound) :
    IsWhole (x + y) (nearest (a + b)) :=
  (Whole.add left right bounded).isWhole

theorem sub (left : IsWhole x a) (right : IsWhole y b) (bounded : (a - b).natAbs < finiteBound) :
    IsWhole (x - y) (nearest (a - b)) :=
  (Whole.sub left right bounded).isWhole

theorem mul (left : IsWhole x a) (right : IsWhole y b) (bounded : (a * b).natAbs < finiteBound) :
    IsWhole (x * y) (nearest (a * b)) :=
  (Whole.mul left right bounded).isWhole

/-- As an `i64`, it is cut off at the bounds. -/
theorem toInt64 (whole : IsWhole x a) : x.toInt64 = Int64.ofIntClamp a :=
  congrArg Int64.ofIntClamp (Whole.toInt_eq whole _ _)

theorem partialCmp (left : IsWhole x a) (right : IsWhole y b) :
    x.partialCmp y = some (compare a b) :=
  Whole.compare left right

theorem isNan_eq_false (whole : IsWhole x a) : x.isNan = false := by
  rw [Bool.eq_false_iff, ne_eq, isNan_iff]
  intro nan
  rw [IsWhole, nan] at whole
  cases whole

theorem isZero_iff (whole : IsWhole x a) : x.isZero = true ↔ a = 0 := by
  rw [isZero, whole.partialCmp isWhole_zero, beq_iff_eq, Option.some.injEq, compare_eq_iff_eq]

/-- There is nothing to cut off. -/
theorem trunc (whole : IsWhole x a) (bounded : a.natAbs < finiteBound) : IsWhole x.trunc a := by
  unfold Float64.trunc
  cases unpacked : x.unpack with
  | finite sign m e positive =>
      rw [IsWhole, unpacked] at whole
      have value : roundToInt sign m e = a := Whole.toInt_eq whole 0 0
      have some_ : a ≠ 0 := by
        cases whole with
        | @finite _ _ _ n _ normal small low high scaled =>
            have above := scaled_pos normal scaled
            rw [← Int.natAbs_ne_zero, Whole.natAbs_apply]
            omega
      dsimp only
      rw [value, if_neg some_]
      have rounded := isWhole_ofInt bounded
      rwa [Whole.nearest_eq whole] at rounded
  | _ => exact whole

/-- Nothing is behind the point. -/
theorem fract_isZero (whole : IsWhole x a) (bounded : a.natAbs < finiteBound) :
    x.fract.isZero = true := by
  have none : (a - a).natAbs < finiteBound := by
    rw [sub_self]
    exact lt_finiteBound (Nat.zero_le _)
  have rest := whole.sub (whole.trunc bounded) none
  rw [sub_self, nearest_zero] at rest
  exact rest.isZero_iff.mpr rfl

end IsWhole

end Squrust.Foundation.Float64
