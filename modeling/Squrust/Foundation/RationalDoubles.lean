import Mathlib
import Squrust.Foundation.ExactIntegers
import Squrust.Foundation.RoundedRationals

/-!
# Doubles as rationals

A finite double is a rational (`HasValue`). Sums, differences, products and quotients of
finite doubles are the exact results rounded to 53 digits, as long as these do not reach
2^1023; doubles are ordered as the rationals are, and cut to integers as these are
(`HasValue.add`, `HasValue.div`, `HasValue.partialCmp`, `HasValue.toInt64`).
-/

set_option autoImplicit false

namespace Squrust.Foundation.Float64

open Float.Model Float.Model.UnpackedFloat

/-! ## What is kept of the digits behind the point -/

/-- Digits with a round bit and a sticky bit stand for a rational. -/
structure StandsFor (em : ExtendedMantissa) (q : ℚ) : Prop where
  nonneg : 0 ≤ q
  whole : em.mantissa = ⌊q⌋₊
  half : em.roundBit = true ↔ 1 / 2 ≤ q - ⌊q⌋₊
  rest : em.stickyBit = true ↔ q - ⌊q⌋₊ ≠ 0 ∧ q - ⌊q⌋₊ ≠ 1 / 2

theorem StandsFor.shiftRightOne {em : ExtendedMantissa} {q : ℚ} (stands : StandsFor em q) :
    StandsFor em.shiftRightOne (q / 2) := by
  have below : (⌊q⌋₊ : ℚ) ≤ q := Nat.floor_le stands.nonneg
  have above : q < ⌊q⌋₊ + 1 := Nat.lt_floor_add_one q
  have digit : ⌊q⌋₊ % 2 = 0 ∨ ⌊q⌋₊ % 2 = 1 := Nat.mod_two_eq_zero_or_one _
  have split : ((⌊q⌋₊ / 2 : Nat) : ℚ) = (⌊q⌋₊ - (⌊q⌋₊ % 2 : Nat)) / 2 := by
    have parts : ((2 * (⌊q⌋₊ / 2) + ⌊q⌋₊ % 2 : Nat) : ℚ) = ⌊q⌋₊ :=
      congrArg Nat.cast (Nat.div_add_mod _ _)
    push_cast at parts
    linarith
  have quotient : ⌊q / 2⌋₊ = ⌊q⌋₊ / 2 := Nat.floor_div_ofNat q 2
  have round := stands.half
  have sticky := stands.rest
  refine ⟨div_nonneg stands.nonneg (by norm_num), ?_, ?_, ?_⟩
  · rw [quotient, ← stands.whole]
    rfl
  · rw [quotient, split]
    change (em.mantissa % 2 != 0) = true ↔ _
    rw [stands.whole, bne_iff_ne]
    rcases digit with even | odd
    · rw [even]
      constructor
      · intro absurd_
        exact absurd rfl absurd_
      · intro half
        push_cast at half
        linarith
    · rw [odd]
      constructor
      · intro _
        push_cast
        linarith
      · intro _
        decide
  · rw [quotient, split]
    change (em.roundBit || em.stickyBit) = true ↔ _
    rw [Bool.or_eq_true, round, sticky]
    have part : (1 / 2 ≤ q - ⌊q⌋₊ ∨ q - ⌊q⌋₊ ≠ 0 ∧ q - ⌊q⌋₊ ≠ 1 / 2) ↔ q - ⌊q⌋₊ ≠ 0 := by
      constructor
      · rintro (half | ⟨some_, _⟩)
        · intro none
          linarith
        · exact some_
      · intro some_
        by_cases half : q - ⌊q⌋₊ = 1 / 2
        · exact .inl half.ge
        · exact .inr ⟨some_, half⟩
    rw [part]
    rcases digit with even | odd
    · rw [even]
      constructor
      · intro some_
        refine ⟨fun none => some_ ?_, fun half => ?_⟩
        · push_cast at none
          linarith
        · push_cast at half
          linarith
      · rintro ⟨some_, _⟩ none
        refine some_ ?_
        push_cast
        linarith
    · rw [odd]
      constructor
      · intro some_
        refine ⟨fun none => ?_, fun half => some_ ?_⟩
        · push_cast at none
          linarith
        · push_cast at half
          linarith
      · rintro ⟨_, some_⟩ none
        refine some_ ?_
        push_cast
        linarith

theorem StandsFor.shiftRight {em : ExtendedMantissa} {q : ℚ} (stands : StandsFor em q) (d : Nat) :
    StandsFor (em >>> d) (q / 2 ^ d) := by
  induction d with
  | zero =>
      rw [pow_zero, div_one]
      exact stands
  | succ d ih =>
      have step := ih.shiftRightOne
      rw [div_div, ← pow_succ] at step
      exact step

/-- Rounding what is kept is rounding the rational. -/
theorem StandsFor.roundedMantissa {em : ExtendedMantissa} {q : ℚ} (stands : StandsFor em q) :
    em.roundedMantissa = nearestEven q := by
  obtain ⟨m, round, sticky⟩ := em
  obtain ⟨nonneg, whole, half, rest⟩ := stands
  dsimp only at whole half rest
  subst whole
  have above : q < ⌊q⌋₊ + 1 := Nat.lt_floor_add_one q
  unfold nearestEven
  cases round with
  | false =>
      have low : q - ⌊q⌋₊ < 1 / 2 := by
        by_contra more
        exact absurd (half.mpr (not_lt.mp more)) (by decide)
      rw [if_pos low]
      cases sticky with
      | false => rfl
      | true => rfl
  | true =>
      have high := half.mp rfl
      rw [if_neg (not_lt.mpr high)]
      cases sticky with
      | false =>
          have middle : q - ⌊q⌋₊ = 1 / 2 := by
            by_contra apart
            have some_ : q - ⌊q⌋₊ ≠ 0 := by
              intro none
              rw [none] at high
              norm_num at high
            exact absurd (rest.mpr ⟨some_, apart⟩) (by decide)
          rw [if_pos middle]
          rfl
      | true =>
          rw [if_neg (rest.mp rfl).2]
          rfl

theorem standsFor_exact (m : Nat) : StandsFor (.ofMantissaAndAccuracy m .exact) (m : ℚ) := by
  refine ⟨Nat.cast_nonneg _, (Nat.floor_natCast m).symm, ?_, ?_⟩
  · rw [Nat.floor_natCast, sub_self]
    change false = true ↔ _
    norm_num
  · rw [Nat.floor_natCast, sub_self]
    change false = true ↔ _
    norm_num

/-- A quotient and how its remainder compares with half of the divisor. -/
theorem standsFor_div (num : Nat) {den : Nat} (positive : 0 < den) :
    StandsFor (.ofMantissaAndAccuracy (num / den) (accuracyOfFraction (num % den) den))
      ((num : ℚ) / den) := by
  have below := Nat.mod_lt num positive
  have den_pos : (0 : ℚ) < den := by exact_mod_cast positive
  have floor : ⌊(num : ℚ) / den⌋₊ = num / den := Nat.floor_div_eq_div num den
  have rest : (num : ℚ) / den - (num / den : Nat) = (num % den : Nat) / den := by
    have parts : ((den * (num / den) + num % den : Nat) : ℚ) = num :=
      congrArg Nat.cast (Nat.div_add_mod num den)
    push_cast at parts
    field_simp
    linarith
  have half : (1 / 2 : ℚ) ≤ (num % den : Nat) / den ↔ den ≤ 2 * (num % den) := by
    rw [div_le_div_iff₀ (by norm_num) den_pos]
    norm_cast
    omega
  have middle : ((num % den : Nat) : ℚ) / den = 1 / 2 ↔ den = 2 * (num % den) := by
    rw [div_eq_div_iff den_pos.ne' (by norm_num)]
    norm_cast
    omega
  have none : ((num % den : Nat) : ℚ) / den = 0 ↔ num % den = 0 := by
    rw [div_eq_zero_iff, or_iff_left den_pos.ne']
    exact Nat.cast_eq_zero
  have exact_or : num % den = 0 ∨ num % den ≠ 0 := em _
  refine ⟨by positivity, ?_, ?_, ?_⟩
  · rw [floor, accuracyOfFraction]
    split
    · rfl
    · cases compare (2 * (num % den)) den <;> rfl
  · rw [floor, rest, half, accuracyOfFraction]
    split
    · rename_i zero
      change false = true ↔ _
      rw [zero]
      simp only [Bool.false_eq_true, false_iff]
      omega
    · cases order : compare (2 * (num % den)) den with
      | lt =>
          rw [compare_lt_iff_lt] at order
          change false = true ↔ _
          simp only [Bool.false_eq_true, false_iff]
          omega
      | eq =>
          rw [compare_eq_iff_eq] at order
          exact iff_of_true rfl order.ge
      | gt =>
          rw [compare_gt_iff_gt] at order
          exact iff_of_true rfl order.le
  · rw [floor, rest, Ne, Ne, middle, none, accuracyOfFraction]
    split
    · rename_i zero
      exact iff_of_false Bool.false_ne_true fun both => both.1 zero
    · rename_i some_
      cases order : compare (2 * (num % den)) den with
      | lt =>
          rw [compare_lt_iff_lt] at order
          exact iff_of_true rfl ⟨some_, by omega⟩
      | eq =>
          rw [compare_eq_iff_eq] at order
          exact iff_of_false Bool.false_ne_true fun both => both.2 order.symm
      | gt =>
          rw [compare_gt_iff_gt] at order
          exact iff_of_true rfl ⟨some_, by omega⟩

/-! ## Rounding to a double -/

/-- A magnitude with its sign. -/
def signed : Sign → ℚ → ℚ
  | .positive, q => q
  | .negative, q => -q

@[simp] theorem signed_zero (sign : Sign) : signed sign 0 = 0 := by
  cases sign with
  | positive => rfl
  | negative => exact neg_zero

/-- Rationals below it are rounded to finite doubles. -/
def reach : ℚ := 2 ^ 1023

theorem lt_reach {q : ℚ} (small : q ≤ 2 ^ 200) : q < reach :=
  small.trans_lt (pow_lt_pow_right₀ (by norm_num) (by norm_num))

/-- Digits and an exponent that a double can have. -/
structure Kept (m : Nat) (e : Int) : Prop where
  small : m < 2 ^ 53
  normal : 2 ^ 52 ≤ m ∨ e = -1074
  low : -1074 ≤ e

/-- An unpacked double is a rational. -/
inductive Valued : UnpackedFloat → ℚ → Prop where
  | zero (sign : Sign) : Valued (.zero sign) 0
  | finite {sign : Sign} {m : Nat} {e : Int} (positive : 0 < m) (kept : Kept m e) (high : e ≤ 971) :
      Valued (.finite sign m e positive) (signed sign (m * 2 ^ e))

theorem shiftToTargetExponent_kept {m : Nat} {e : Int} (kept : Kept m e) :
    shiftToTargetExponent .binary64 m e .exact = (⟨m, false, false⟩, e) := by
  obtain ⟨small, normal, low⟩ := kept
  have none : (Format.binary64.targetExponent (totalExponent m e) - e).toNat = 0 := by
    rw [targetExponent_eq, totalExponent]
    rcases normal with many | least
    · have digits : m.log2 = 52 := by
        rw [Nat.log2_eq_iff (by omega)]
        exact ⟨many, small⟩
      omega
    · have digits : m.log2 ≤ 52 := by
        by_cases zero : m = 0
        · subst zero
          decide
        · have less := (Nat.log2_lt zero).mpr small
          omega
      omega
  rw [shiftToTargetExponent]
  simp only [shiftToExponent, none]
  exact congrArg (Prod.mk _) (by simp)

theorem shiftToTargetExponent_full_up {e : Int} (low : -1074 ≤ e) :
    shiftToTargetExponent .binary64 (2 ^ 53) e .exact = (⟨2 ^ 52, false, false⟩, e + 1) := by
  have digits : (2 ^ 53 : Nat).log2 = 53 := Nat.log2_two_pow
  have amount : (Format.binary64.targetExponent (totalExponent (2 ^ 53) e) - e).toNat = 1 := by
    rw [targetExponent_eq, totalExponent, digits]
    omega
  rw [shiftToTargetExponent]
  simp only [shiftToExponent, amount]
  rfl

/-- The exponent to shift to is that of the last digit that is kept. -/
theorem targetExponent_eq_lastDigit {m : Nat} {q : ℚ} {e : Int} (positive : 0 < q) (whole : m = ⌊q⌋₊)
    (room : e ≤ lastDigit (q * 2 ^ e)) :
    Format.binary64.targetExponent (totalExponent m e) = lastDigit (q * 2 ^ e) := by
  have below : (m : ℚ) ≤ q := whole ▸ Nat.floor_le positive.le
  have above : q < m + 1 := whole ▸ Nat.lt_floor_add_one q
  rw [targetExponent_eq, totalExponent]
  by_cases none : m = 0
  · subst none
    have power := two_zpow_pos e
    have logs : Int.log 2 (q * 2 ^ e) < e := by
      rw [← Int.lt_zpow_iff_log_lt (by norm_num) (by positivity)]
      rw [Nat.cast_zero, zero_add] at above
      push_cast
      exact mul_lt_of_lt_one_left power above
    have digits : (0 : Nat).log2 = 0 := by decide
    rw [digits]
    unfold lastDigit at room ⊢
    omega
  · rw [lastDigit, log_mul_zpow none below above]
    omega

/-- An unpacked double, which may be too large to be packed, is a rational rounded. -/
inductive Rounds (sign : Sign) (q : ℚ) : UnpackedFloat → Prop where
  | zero (none : roundedAbs q = 0) : Rounds sign q (.zero sign)
  | finite {m : Nat} {e : Int} (positive : 0 < m) (kept : Kept m e)
      (value : roundedAbs q = m * 2 ^ e) : Rounds sign q (.finite sign m e positive)

/-- Rationals below the reach are not too large. -/
theorem Rounds.valued {sign : Sign} {q : ℚ} {u : UnpackedFloat} (rounds : Rounds sign q u)
    (nonneg : 0 ≤ q) (bounded : q < reach) : Valued u (signed sign (roundedAbs q)) := by
  cases rounds with
  | zero none =>
      rw [none, signed_zero]
      exact .zero _
  | @finite m e positive kept value =>
      rw [value]
      refine .finite positive kept ?_
      by_contra high
      have few : FewDigits reach := ⟨1, 1023, by decide, by decide, by norm_num [reach]⟩
      have below : roundedAbs q ≤ reach := by
        rw [← rounded_of_nonneg nonneg]
        exact rounded_le few bounded.le
      have normal : 2 ^ 52 ≤ m := by
        have low := kept.normal
        omega
      have many : (2 : ℚ) ^ 52 ≤ m := by exact_mod_cast normal
      have above : reach < m * 2 ^ e := by
        calc reach < 2 ^ 52 * 2 ^ (972 : Int) := by
              rw [reach, ← zpow_natCast, ← zpow_natCast, ← zpow_add₀ (by norm_num)]
              exact zpow_lt_zpow_right₀ (by norm_num) (by norm_num)
          _ ≤ 2 ^ 52 * 2 ^ e :=
              mul_le_mul_of_nonneg_left (zpow_le_zpow_right₀ (by norm_num) (by omega)) (by positivity)
          _ ≤ m * 2 ^ e := mul_le_mul_of_nonneg_right many (two_zpow_pos e).le
      linarith

/-- Rounding up to the next power of two takes one digit more. -/
theorem carried {sign : Sign} {q : ℚ} {r : Nat} {l : Int} (value : roundedAbs q = r * 2 ^ l)
    (upper : r ≤ 2 ^ 53) (normal : 2 ^ 52 ≤ r ∨ l = -1074) (low : -1074 ≤ l) :
    Rounds sign q
      (if h : (shiftToTargetExponent .binary64 r l .exact).1.mantissa = 0 then .zero sign
      else .finite sign _ (shiftToTargetExponent .binary64 r l .exact).2 (Nat.pos_of_ne_zero h)) := by
  rcases upper.lt_or_eq with small | rfl
  · have kept : Kept r l := ⟨small, normal, low⟩
    simp only [shiftToTargetExponent_kept kept]
    split
    · rename_i zero
      subst zero
      exact .zero (value.trans (by simp))
    · exact .finite _ kept value
  · simp only [shiftToTargetExponent_full_up low]
    rw [dif_neg (by decide)]
    have same : ((2 ^ 53 : Nat) : ℚ) * 2 ^ l = (2 ^ 52 : Nat) * 2 ^ (l + 1) := by
      rw [zpow_add₀ (by norm_num)]
      push_cast
      ring
    exact .finite _ ⟨by decide, .inl le_rfl, by omega⟩ (value.trans same)

/-- **Rounding** digits of which it is known how they compare with a rational. -/
theorem roundWithAccuracy_rounds {sign : Sign} {m : Nat} {accuracy : Accuracy} {q : ℚ} {e : Int}
    (stands : StandsFor (.ofMantissaAndAccuracy m accuracy) q) (positive : 0 < q)
    (room : e ≤ lastDigit (q * 2 ^ e)) :
    Rounds sign (q * 2 ^ e) (roundWithAccuracy .binary64 sign m e accuracy) := by
  have power := two_zpow_pos e
  have whole : m = ⌊q⌋₊ := by
    rw [← stands.whole]
    cases accuracy with
    | exact => rfl
    | inexact order => cases order <;> rfl
  have target := targetExponent_eq_lastDigit positive whole room
  obtain ⟨d, last⟩ : ∃ d : Nat, e + d = lastDigit (q * 2 ^ e) :=
    ⟨(lastDigit (q * 2 ^ e) - e).toNat, by omega⟩
  have shift : shiftToTargetExponent .binary64 m e accuracy =
      (ExtendedMantissa.ofMantissaAndAccuracy m accuracy >>> d, lastDigit (q * 2 ^ e)) := by
    have amount : (lastDigit (q * 2 ^ e) - e).toNat = d := by omega
    rw [shiftToTargetExponent]
    simp only [shiftToExponent, target, amount, last]
  have scaled : q / 2 ^ d = q * 2 ^ e / 2 ^ lastDigit (q * 2 ^ e) := by
    rw [← last, zpow_add₀ (by norm_num), zpow_natCast]
    field_simp
  have digits := (stands.shiftRight d).roundedMantissa
  rw [scaled] at digits
  have value : roundedAbs (q * 2 ^ e) =
      nearestEven (q * 2 ^ e / 2 ^ lastDigit (q * 2 ^ e)) * 2 ^ lastDigit (q * 2 ^ e) := rfl
  obtain ⟨upper, lower⟩ := nearestEven_digits (mul_pos positive power)
  rw [roundWithAccuracy]
  simp only [shift, digits]
  exact carried value upper lower (le_max_right _ _)

/-- Lowering the exponent gives the same number. -/
theorem mul_zpow_sub {q : ℚ} {e : Int} (k : Nat) : q * 2 ^ k * 2 ^ (e - k) = q * 2 ^ e := by
  rw [mul_assoc, ← zpow_natCast, ← zpow_add₀ (by norm_num : (2 : ℚ) ≠ 0)]
  congr 2
  omega

theorem round_rounds {sign : Sign} {m : Nat} {e : Int} (positive : m ≠ 0) :
    Rounds sign (m * 2 ^ e) (UnpackedFloat.round .binary64 sign m e) := by
  have target : Format.binary64.targetExponent (totalExponent m e) = lastDigit (m * 2 ^ e) := by
    rw [targetExponent_eq, totalExponent, lastDigit, log_natCast_mul_zpow positive]
    omega
  have above : 0 < m := Nat.pos_of_ne_zero positive
  rw [UnpackedFloat.round]
  simp only [target, decreaseExponent, Nat.shiftLeft_eq]
  generalize shift : (e - lastDigit (m * 2 ^ e)).toNat = k
  have same : ((m * 2 ^ k : Nat) : ℚ) * 2 ^ (e - k) = m * 2 ^ e := by
    push_cast
    exact mul_zpow_sub k
  have rounded := @roundWithAccuracy_rounds sign _ _ _ (e - k) (standsFor_exact (m * 2 ^ k))
    (by positivity)
  rw [same] at rounded
  exact rounded (by omega)

theorem cast_neg_mul (n : Nat) (q : ℚ) : ((-(n : Int) : Int) : ℚ) * q = -(n * q) := by
  push_cast
  ring

/-- **Digits with a sign** are rounded as the rational is. -/
theorem normalize_valued {m : Int} {e : Int} (zeroSign : Sign) (bounded : |(m : ℚ) * 2 ^ e| < reach) :
    Valued (UnpackedFloat.normalize .binary64 m e zeroSign) (rounded (m * 2 ^ e)) := by
  have power := two_zpow_pos e
  rw [UnpackedFloat.normalize]
  rcases lt_trichotomy m 0 with below | rfl | above
  · obtain ⟨n, rfl⟩ : ∃ n : Nat, m = -n := ⟨(-m).toNat, by omega⟩
    have magnitude : (- -(n : Int)).toNat = n := by omega
    have some_ : n ≠ 0 := by omega
    have nonneg : (0 : ℚ) ≤ n * 2 ^ e := by positivity
    rw [compare_lt_iff_lt.mpr below, cast_neg_mul, rounded_neg, rounded_of_nonneg nonneg]
    rw [cast_neg_mul, abs_neg, abs_of_nonneg nonneg] at bounded
    dsimp only
    rw [magnitude]
    exact (@round_rounds .negative n e some_).valued nonneg bounded
  · rw [Int.cast_zero, zero_mul, rounded_zero]
    exact .zero _
  · obtain ⟨n, rfl⟩ : ∃ n : Nat, m = n := ⟨m.toNat, by omega⟩
    have some_ : n ≠ 0 := by omega
    have nonneg : (0 : ℚ) ≤ n * 2 ^ e := by positivity
    rw [Int.cast_natCast, abs_of_nonneg nonneg] at bounded
    rw [compare_gt_iff_gt.mpr above, Int.cast_natCast, rounded_of_nonneg nonneg]
    exact (@round_rounds .positive n e some_).valued nonneg bounded

/-! ## Operations -/

namespace Valued

variable {x y : UnpackedFloat} {a b : ℚ}

theorem signed_mul (sign : Sign) (n : Nat) (e : Int) :
    signed sign (n * 2 ^ e) = (sign.apply n : Int) * 2 ^ e := by
  cases sign with
  | positive => rfl
  | negative => exact (cast_neg_mul n _).symm

/-- A double has no digits to round. -/
theorem fewDigits (valued : Valued x a) : FewDigits a := by
  cases valued with
  | zero => exact ⟨0, 0, by decide, by decide, by simp⟩
  | @finite sign m e positive kept high =>
      refine ⟨sign.apply m, e, ?_, kept.low, signed_mul sign m e⟩
      cases sign with
      | positive => exact kept.small.le
      | negative =>
          change (-(m : Int)).natAbs ≤ _
          rw [Int.natAbs_neg]
          exact kept.small.le

theorem rounded_eq (valued : Valued x a) : rounded a = a := valued.fewDigits.rounded_eq

/-- Digits at a lower exponent. -/
theorem aligned {sign : Sign} {m : Nat} {e least : Int} (le : least ≤ e) :
    ((sign.apply (m <<< (e - least).toNat : Nat) : Int) : ℚ) * 2 ^ least =
      signed sign (m * 2 ^ e) := by
  obtain ⟨k, rfl⟩ : ∃ k : Nat, e = least + k := ⟨(e - least).toNat, by omega⟩
  have shift : (least + k - least).toNat = k := by omega
  rw [shift, ← signed_mul, Nat.shiftLeft_eq]
  congr 1
  rw [zpow_add₀ (by norm_num), zpow_natCast]
  push_cast
  ring

theorem neg {sign : Sign} {m : Nat} {e : Int} {positive : 0 < m}
    (valued : Valued (.finite sign m e positive) a) :
    Valued (.finite (-sign) m e positive) (-a) := by
  cases valued with
  | finite _ kept high =>
      have flipped : -(signed sign (m * 2 ^ e)) = signed (-sign) (m * 2 ^ e) := by
        cases sign with
        | positive => rfl
        | negative => exact neg_neg _
      rw [flipped]
      exact .finite _ kept high

theorem add (left : Valued x a) (right : Valued y b) (bounded : |a + b| < reach) :
    Valued (UnpackedFloat.add .binary64 x y) (rounded (a + b)) := by
  cases left with
  | zero sign =>
      rw [zero_add, right.rounded_eq]
      cases right with
      | zero sign' =>
          rw [UnpackedFloat.add]
          split
          · exact .zero _
          · exact .zero _
      | finite positive kept high => exact .finite positive kept high
  | @finite sign m e positive kept high =>
      cases right with
      | zero sign' =>
          have valued : Valued (.finite sign m e positive) (signed sign (m * 2 ^ e)) :=
            .finite positive kept high
          rw [add_zero, valued.rounded_eq]
          exact valued
      | @finite sign' m' e' positive' kept' high' =>
          have exact_ := congrArg₂ (fun v w : ℚ => v + w)
            (@aligned sign m e _ (min_le_left e e')) (@aligned sign' m' e' _ (min_le_right e e'))
          rw [← add_mul, ← Int.cast_add] at exact_
          rw [← exact_] at bounded ⊢
          exact normalize_valued _ bounded

theorem sub (left : Valued x a) (right : Valued y b) (bounded : |a - b| < reach) :
    Valued (UnpackedFloat.sub .binary64 x y) (rounded (a - b)) := by
  cases left with
  | zero sign =>
      rw [zero_sub, rounded_neg, right.rounded_eq]
      cases right with
      | zero sign' =>
          rw [neg_zero, UnpackedFloat.sub]
          split
          · exact .zero _
          · exact .zero _
      | finite positive kept high => exact (Valued.finite positive kept high).neg
  | @finite sign m e positive kept high =>
      cases right with
      | zero sign' =>
          have valued : Valued (.finite sign m e positive) (signed sign (m * 2 ^ e)) :=
            .finite positive kept high
          rw [sub_zero, valued.rounded_eq]
          exact valued
      | @finite sign' m' e' positive' kept' high' =>
          have exact_ := congrArg₂ (fun v w : ℚ => v - w)
            (@aligned sign m e _ (min_le_left e e')) (@aligned sign' m' e' _ (min_le_right e e'))
          rw [← sub_mul, ← Int.cast_sub] at exact_
          rw [← exact_] at bounded ⊢
          exact normalize_valued _ bounded

theorem signed_mul_signed (sign sign' : Sign) (q q' : ℚ) :
    signed sign q * signed sign' q' = signed (sign * sign') (q * q') := by
  cases sign with
  | positive =>
      cases sign' with
      | positive => rfl
      | negative => exact mul_neg q q'
  | negative =>
      cases sign' with
      | positive => exact neg_mul q q'
      | negative => exact neg_mul_neg q q'

theorem signed_div_signed (sign sign' : Sign) (q q' : ℚ) :
    signed sign q / signed sign' q' = signed (sign / sign') (q / q') := by
  cases sign with
  | positive =>
      cases sign' with
      | positive => rfl
      | negative => exact div_neg q
  | negative =>
      cases sign' with
      | positive => exact neg_div q' q
      | negative => exact neg_div_neg_eq q q'

theorem rounded_signed {q : ℚ} (nonneg : 0 ≤ q) (sign : Sign) :
    rounded (signed sign q) = signed sign (roundedAbs q) := by
  cases sign with
  | positive => exact rounded_of_nonneg nonneg
  | negative => exact (rounded_neg q).trans (congrArg Neg.neg (rounded_of_nonneg nonneg))

theorem abs_signed {q : ℚ} (nonneg : 0 ≤ q) (sign : Sign) : |signed sign q| = q := by
  cases sign with
  | positive => exact abs_of_nonneg nonneg
  | negative => exact (abs_neg q).trans (abs_of_nonneg nonneg)

/-- A product has digits enough. -/
theorem room_mul {m m' : Nat} {e e' : Int} (positive : 0 < m) (positive' : 0 < m') (kept : Kept m e)
    (kept' : Kept m' e') : e + e' ≤ lastDigit (((m * m' : Nat) : ℚ) * 2 ^ (e + e')) := by
  have some_ : m * m' ≠ 0 := (Nat.mul_pos positive positive').ne'
  have digits : (2 ^ 52 : Nat) ≤ m * m' → 52 ≤ (m * m').log2 := fun many =>
    (Nat.le_log2 some_).mpr many
  rw [lastDigit, log_natCast_mul_zpow some_]
  rcases kept.normal with normal | least
  · have many := digits (normal.trans (Nat.le_mul_of_pos_right m positive'))
    omega
  · rcases kept'.normal with normal | least'
    · have many := digits (normal.trans (Nat.le_mul_of_pos_left m' positive))
      omega
    · omega

theorem mul_finite {sign sign' : Sign} {m m' : Nat} {e e' : Int} {positive : 0 < m}
    {positive' : 0 < m'} (kept : Kept m e) (kept' : Kept m' e') :
    Rounds (sign * sign') (m * 2 ^ e * (m' * 2 ^ e'))
      (UnpackedFloat.mul .binary64 (.finite sign m e positive) (.finite sign' m' e' positive')) := by
  have exact_ : (m : ℚ) * 2 ^ e * (m' * 2 ^ e') = ((m * m' : Nat) : ℚ) * 2 ^ (e + e') := by
    rw [zpow_add₀ (by norm_num)]
    push_cast
    ring
  rw [exact_]
  exact roundWithAccuracy_rounds (standsFor_exact _)
    (by exact_mod_cast Nat.mul_pos positive positive') (room_mul positive positive' kept kept')

theorem mul (left : Valued x a) (right : Valued y b) (bounded : |a * b| < reach) :
    Valued (UnpackedFloat.mul .binary64 x y) (rounded (a * b)) := by
  cases left with
  | zero sign =>
      rw [zero_mul, rounded_zero]
      cases right with
      | zero sign' => exact .zero _
      | finite positive kept high => exact .zero _
  | @finite sign m e positive kept high =>
      cases right with
      | zero sign' =>
          rw [mul_zero, rounded_zero]
          exact .zero _
      | @finite sign' m' e' positive' kept' high' =>
          have nonneg : (0 : ℚ) ≤ m * 2 ^ e * (m' * 2 ^ e') := by positivity
          rw [signed_mul_signed] at bounded ⊢
          rw [abs_signed nonneg] at bounded
          rw [rounded_signed nonneg]
          exact (mul_finite kept kept').valued nonneg bounded

/-- The leading digit of a quotient. -/
theorem le_log_div {m m' : Nat} (e e' : Int) (positive : 0 < m) (positive' : 0 < m') :
    (m.log2 + e) - (m'.log2 + e') - 1 ≤ Int.log 2 ((m : ℚ) * 2 ^ e / (m' * 2 ^ e')) := by
  have above : (0 : ℚ) < m * 2 ^ e / (m' * 2 ^ e') := by positivity
  rw [← Int.zpow_le_iff_le_log (by norm_num) above, le_div_iff₀ (by positivity)]
  have lower : (2 : ℚ) ^ m.log2 ≤ m := by
    exact_mod_cast Nat.log2_self_le positive.ne'
  have upper : (m' : ℚ) ≤ 2 ^ (m'.log2 + 1) := by
    exact_mod_cast (@Nat.lt_log2_self m').le
  calc ((2 : Nat) : ℚ) ^ ((m.log2 + e) - (m'.log2 + e') - 1) * (m' * 2 ^ e')
      ≤ 2 ^ ((m.log2 + e) - (m'.log2 + e') - 1) * (2 ^ (m'.log2 + 1) * 2 ^ e') := by
        push_cast
        gcongr
    _ = 2 ^ m.log2 * 2 ^ e := by
        rw [← zpow_natCast, ← zpow_natCast, ← zpow_add₀ (by norm_num), ← zpow_add₀ (by norm_num),
          ← zpow_add₀ (by norm_num)]
        congr 1
        push_cast
        ring
    _ ≤ m * 2 ^ e := by gcongr

/-- **The quotient** of digits and exponents. -/
theorem div_finite {sign sign' : Sign} {m m' : Nat} {e e' : Int} {positive : 0 < m}
    {positive' : 0 < m'} :
    Rounds (sign / sign') (m * 2 ^ e / (m' * 2 ^ e'))
      (UnpackedFloat.div .binary64 (.finite sign m e positive) (.finite sign' m' e' positive')) := by
  have logs := le_log_div e e' positive positive'
  rw [UnpackedFloat.div, divCore, targetExponent_eq]
  simp only [Nat.shiftLeft_eq]
  generalize target_eq : min (e - e') (max (totalExponent m e - totalExponent m' e' - 53) (-1074)) =
    target
  obtain ⟨k, shift⟩ : ∃ k : Nat, e - e' = target + k := ⟨(e - e' - target).toNat, by omega⟩
  have amount : (e - e' - target).toNat = k := by omega
  rw [amount]
  have same : ((m * 2 ^ k : Nat) : ℚ) / m' * 2 ^ target = m * 2 ^ e / (m' * 2 ^ e') := by
    have split : e = target + k + e' := by omega
    rw [split, zpow_add₀ (by norm_num), zpow_add₀ (by norm_num), zpow_natCast]
    push_cast
    field_simp
  have room : target ≤ lastDigit (m * 2 ^ e / (m' * 2 ^ e')) := by
    rw [lastDigit]
    unfold totalExponent at target_eq
    omega
  have stands := standsFor_div (m * 2 ^ k) positive'
  have above : (0 : ℚ) < ((m * 2 ^ k : Nat) : ℚ) / m' := by positivity
  have rounded := @roundWithAccuracy_rounds (sign / sign') _ _ _ target stands above
  rw [same] at rounded
  exact rounded room

theorem div (left : Valued x a) (right : Valued y b) (some_ : b ≠ 0) (bounded : |a / b| < reach) :
    Valued (UnpackedFloat.div .binary64 x y) (rounded (a / b)) := by
  cases right with
  | zero sign' => exact absurd rfl some_
  | @finite sign' m' e' positive' kept' high' =>
      cases left with
      | zero sign =>
          rw [zero_div, rounded_zero]
          exact .zero _
      | @finite sign m e positive kept high =>
          have nonneg : (0 : ℚ) ≤ m * 2 ^ e / (m' * 2 ^ e') := by positivity
          rw [signed_div_signed] at bounded ⊢
          rw [abs_signed nonneg] at bounded
          rw [rounded_signed nonneg]
          exact div_finite.valued nonneg bounded

/-- Cutting off what stands behind the point. -/
theorem roundToInt_eq (sign : Sign) (m : Nat) (e : Int) :
    roundToInt sign m e = truncated (signed sign (m * 2 ^ e)) := by
  have digits : (shiftToExponent (decreaseExponent m e 0).1 (decreaseExponent m e 0).2 .exact 0).1.mantissa
      = ⌊(m : ℚ) * 2 ^ e⌋₊ := by
    rw [decreaseExponent, shiftToExponent]
    simp only [Nat.shiftLeft_eq, sub_zero, zero_sub, neg_sub]
    rw [((standsFor_exact _).shiftRight _).whole]
    congr 1
    rcases le_total 0 e with above | below
    · obtain ⟨k, rfl⟩ := Int.eq_ofNat_of_zero_le above
      simp
    · obtain ⟨k, rfl⟩ : ∃ k : Nat, e = -k := ⟨(-e).toNat, by omega⟩
      have none : (-(k : Int)).toNat = 0 := by omega
      have all : (((0 : Nat) : Int) - -(k : Int)).toNat = k := by omega
      rw [none, all, zpow_neg, zpow_natCast, pow_zero, mul_one]
      rfl
  have nonneg : (0 : ℚ) ≤ m * 2 ^ e := by
    have power := two_zpow_pos e
    positivity
  have cut : truncated ((m : ℚ) * 2 ^ e) = ⌊(m : ℚ) * 2 ^ e⌋₊ := by
    rw [truncated, if_neg (not_lt.mpr nonneg)]
  change sign.apply (shiftToExponent (decreaseExponent m e 0).1 (decreaseExponent m e 0).2
    .exact 0).1.mantissa = _
  rw [digits]
  cases sign with
  | positive => exact cut.symm
  | negative => exact ((truncated_neg _).trans (congrArg Neg.neg cut)).symm

theorem toInt_eq (valued : Valued x a) (least greatest : Int) :
    x.toInt least greatest = truncated a := by
  cases valued with
  | zero => exact (truncated_intCast 0).symm.trans (congrArg truncated Int.cast_zero)
  | finite positive kept high => exact roundToInt_eq _ _ _

/-- Digits and exponents are compared as the numbers are. -/
theorem compare_digits {m m' : Nat} {e e' : Int} (kept : Kept m e) (kept' : Kept m' e') :
    (Ord.compare e e').then (Ord.compare m m') = Ord.compare ((m : ℚ) * 2 ^ e) (m' * 2 ^ e') := by
  have lower : ∀ {m m' : Nat} {e e' : Int}, Kept m e → Kept m' e' → e < e' →
      (m : ℚ) * 2 ^ e < m' * 2 ^ e' := by
    intro m m' e e' kept kept' less
    have normal : 2 ^ 52 ≤ m' := by
      rcases kept'.normal with normal | least
      · exact normal
      · have low := kept.low
        omega
    have few : (m : ℚ) < 2 ^ 53 := by exact_mod_cast kept.small
    have many : (2 : ℚ) ^ 52 ≤ m' := by exact_mod_cast normal
    have power := two_zpow_pos e
    calc (m : ℚ) * 2 ^ e < 2 ^ 53 * 2 ^ e := by gcongr
      _ = 2 ^ 52 * 2 ^ (e + 1) := by
          rw [zpow_add₀ (by norm_num)]
          ring
      _ ≤ 2 ^ 52 * 2 ^ e' := by
          gcongr
          · norm_num
          · omega
      _ ≤ m' * 2 ^ e' := by gcongr
  rcases lt_trichotomy e e' with less | rfl | greater
  · rw [compare_lt_iff_lt.mpr less, compare_lt_iff_lt.mpr (lower kept kept' less)]
    rfl
  · have power := two_zpow_pos e
    rw [compare_eq_iff_eq.mpr rfl, Ordering.then]
    rcases lt_trichotomy m m' with less | rfl | greater
    · have cast : (m : ℚ) < m' := by exact_mod_cast less
      rw [compare_lt_iff_lt.mpr less, compare_lt_iff_lt.mpr (by gcongr)]
    · rw [compare_eq_iff_eq.mpr rfl, compare_eq_iff_eq.mpr rfl]
    · have cast : (m' : ℚ) < m := by exact_mod_cast greater
      rw [compare_gt_iff_gt.mpr greater, compare_gt_iff_gt.mpr (by gcongr)]
  · rw [compare_gt_iff_gt.mpr greater, compare_gt_iff_gt.mpr (lower kept' kept greater)]
    rfl

theorem magnitude_pos {m : Nat} (positive : 0 < m) (e : Int) : (0 : ℚ) < m * 2 ^ e := by
  positivity

theorem compare_neg_neg (q q' : ℚ) : Ord.compare (-q) (-q') = (Ord.compare q q').swap := by
  rcases lt_trichotomy q q' with less | rfl | greater
  · rw [compare_lt_iff_lt.mpr less, compare_gt_iff_gt.mpr (neg_lt_neg less)]
    rfl
  · rw [compare_eq_iff_eq.mpr rfl, compare_eq_iff_eq.mpr rfl]
    rfl
  · rw [compare_gt_iff_gt.mpr greater, compare_lt_iff_lt.mpr (neg_lt_neg greater)]
    rfl

/-- **Doubles are ordered as the rationals** they are. -/
theorem compare (left : Valued x a) (right : Valued y b) :
    x.compare y = some (Ord.compare a b) := by
  cases left with
  | zero sign =>
      cases right with
      | zero sign' => rfl
      | @finite sign' m' e' positive' kept' high' =>
          have above := magnitude_pos positive' e'
          cases sign' with
          | positive => exact congrArg some (compare_lt_iff_lt.mpr above).symm
          | negative => exact congrArg some (compare_gt_iff_gt.mpr (neg_lt_zero.mpr above)).symm
  | @finite sign m e positive kept high =>
      have above := magnitude_pos positive e
      cases right with
      | zero sign' =>
          cases sign with
          | positive => exact congrArg some (compare_gt_iff_gt.mpr above).symm
          | negative => exact congrArg some (compare_lt_iff_lt.mpr (neg_lt_zero.mpr above)).symm
      | @finite sign' m' e' positive' kept' high' =>
          have above' := magnitude_pos positive' e'
          have digits := compare_digits kept kept'
          cases sign with
          | positive =>
              cases sign' with
              | positive => exact congrArg some digits
              | negative =>
                  exact congrArg some
                    (compare_gt_iff_gt.mpr ((neg_lt_zero.mpr above').trans above)).symm
          | negative =>
              cases sign' with
              | positive =>
                  exact congrArg some
                    (compare_lt_iff_lt.mpr ((neg_lt_zero.mpr above).trans above')).symm
              | negative =>
                  exact congrArg some
                    ((congrArg Ordering.swap digits).trans (compare_neg_neg _ _).symm)

end Valued

/-! ## Doubles -/

/-- A double with fewer digits than 53 is unpacked as it was packed. -/
theorem unpack_pack_subnormal {sign : Sign} {m : Nat} (positive : 0 < m) (few : m < 2 ^ 52) :
    UnpackedFloat.unpack .binary64 (UnpackedFloat.pack .binary64 (.finite sign m (-1074) positive)) =
      .finite sign m (-1074) positive := by
  have digits : m.log2 < 52 := (Nat.log2_lt positive.ne').mpr few
  have whole : (BitVec.ofNat 52 m).toNat = m := by
    rw [BitVec.toNat_ofNat]
    omega
  have some_ : BitVec.ofNat 52 m ≠ 0#52 := by
    intro none
    have values := congrArg BitVec.toNat none
    rw [whole] at values
    exact positive.ne' values
  have all : Format.binary64.mantissaBits = 53 := rfl
  have biased : ((-1074 : Int) + (Format.binary64.exponentBias : Int) +
      (Format.binary64.mantissaBitsWithoutImplicit : Int)).toNat = 1 := rfl
  have notAll : (0#11 : BitVec 11) ≠ -1#11 := by decide
  rw [UnpackedFloat.pack]
  simp only [biased]
  rw [if_neg (by decide), if_neg (by omega), UnpackedFloat.unpack]
  simp only [unpackMantissa_packComponents, unpackExponent_packComponents, unpackSign_packComponents]
  rw [if_neg notAll, if_pos trivial, dif_neg some_]
  simp only [whole]
  congr 1

/-- The double is this rational. -/
def HasValue (x : Float64) (q : ℚ) : Prop := Valued x.unpack q

/-- A rational is unpacked as it was packed. -/
theorem Valued.stays {u : UnpackedFloat} {q : ℚ} (valued : Valued u q) :
    UnpackedFloat.unpack .binary64 (UnpackedFloat.pack .binary64 u) = u := by
  cases valued with
  | zero sign => exact unpack_pack_zero sign
  | @finite sign m e positive kept high =>
      by_cases normal : 2 ^ 52 ≤ m
      · exact unpack_pack_finite positive normal kept.small kept.low high
      · obtain rfl : e = -1074 := kept.normal.resolve_left normal
        exact unpack_pack_subnormal positive (by omega)

theorem Valued.hasValue {u : UnpackedFloat} {q : ℚ} (valued : Valued u q) :
    HasValue (ofModel (.pack u)) q := by
  rw [HasValue, unpack_ofModel_pack valued.stays]
  exact valued

/-- The double of an integer is the nearest one. -/
theorem hasValue_ofInt {v : Int} (bounded : |(v : ℚ)| < reach) : HasValue (ofInt v) (rounded v) := by
  have valued := @normalize_valued v 0 .positive
  rw [zpow_zero, mul_one] at valued
  exact (valued bounded).hasValue

namespace HasValue

variable {x y : Float64} {a b : ℚ}

theorem rounded_eq (value : HasValue x a) : rounded a = a := Valued.rounded_eq value

theorem add (left : HasValue x a) (right : HasValue y b) (bounded : |a + b| < reach) :
    HasValue (x + y) (rounded (a + b)) :=
  (Valued.add left right bounded).hasValue

theorem sub (left : HasValue x a) (right : HasValue y b) (bounded : |a - b| < reach) :
    HasValue (x - y) (rounded (a - b)) :=
  (Valued.sub left right bounded).hasValue

theorem mul (left : HasValue x a) (right : HasValue y b) (bounded : |a * b| < reach) :
    HasValue (x * y) (rounded (a * b)) :=
  (Valued.mul left right bounded).hasValue

theorem div (left : HasValue x a) (right : HasValue y b) (some_ : b ≠ 0)
    (bounded : |a / b| < reach) : HasValue (x / y) (rounded (a / b)) :=
  (Valued.div left right some_ bounded).hasValue

/-- As an `i64`, it is cut to an integer, and cut off at the bounds. -/
theorem toInt64 (value : HasValue x a) : x.toInt64 = Int64.ofIntClamp (truncated a) :=
  congrArg Int64.ofIntClamp (Valued.toInt_eq value _ _)

theorem partialCmp (left : HasValue x a) (right : HasValue y b) :
    x.partialCmp y = some (compare a b) :=
  Valued.compare left right

end HasValue

/-- What bits stand for has digits and an exponent that a double can have. -/
theorem unpack_kept {bits : BitVec 64} {sign : Sign} {m : Nat} {e : Int} {positive : 0 < m}
    (unpacked : UnpackedFloat.unpack .binary64 bits = .finite sign m e positive) :
    Kept m e ∧ e ≤ 971 := by
  rw [UnpackedFloat.unpack] at unpacked
  have bias : ((Format.binary64.exponentBias : Int) +
      (Format.binary64.mantissaBitsWithoutImplicit : Int)) = 1075 := rfl
  simp only [bias] at unpacked
  have few : (@unpackMantissa .binary64 bits).toNat < 2 ^ 52 := BitVec.isLt _
  have word : (@unpackExponent .binary64 bits).toNat < 2 ^ 11 := BitVec.isLt _
  split at unpacked
  · split at unpacked
    · cases unpacked
    · cases unpacked
  · rename_i notAll
    have below : (@unpackExponent .binary64 bits).toNat ≠ 2047 := fun same => notAll (BitVec.eq_of_toNat_eq same)
    split at unpacked
    · rename_i none
      split at unpacked
      · cases unpacked
      · injection unpacked with _ same exponent
        have zero : (@unpackExponent .binary64 bits).toNat = 0 := congrArg BitVec.toNat none
        exact ⟨⟨by omega, .inr (by omega), by omega⟩, by omega⟩
    · rename_i some_
      have above : (@unpackExponent .binary64 bits).toNat ≠ 0 := fun zero => some_ (BitVec.eq_of_toNat_eq zero)
      injection unpacked with _ same exponent
      have whole : (1#1 ++ @unpackMantissa .binary64 bits).toNat =
          2 ^ 52 + (@unpackMantissa .binary64 bits).toNat := by
        rw [BitVec.toNat_append, ← Nat.shiftLeft_add_eq_or_of_lt (BitVec.isLt _), Nat.shiftLeft_eq]
        rfl
      exact ⟨⟨by omega, .inl (by omega), by omega⟩, by omega⟩

/-- Doubles are finite, infinite or no number. -/
theorem hasValue_or (x : Float64) :
    (∃ q, HasValue x q) ∨ (∃ sign, x.unpack = .infinity sign) ∨ x.unpack = .notANumber := by
  unfold HasValue
  cases unpacked : x.unpack with
  | infinity sign => exact .inr (.inl ⟨sign, rfl⟩)
  | notANumber => exact .inr (.inr rfl)
  | zero sign => exact .inl ⟨0, .zero sign⟩
  | finite sign m e positive =>
      obtain ⟨kept, high⟩ := unpack_kept unpacked
      exact .inl ⟨_, .finite positive kept high⟩

/-- A number that is written with a point. -/
theorem hasValue_literal {digits places : Nat} (positive : 0 < digits) (behind : 0 < places)
    (few : places ≤ 2048) (bounded : (digits : ℚ) / 10 ^ places < reach) :
    HasValue (OfScientific.ofScientific digits true places) (rounded (digits / 10 ^ places)) := by
  have nonneg : (0 : ℚ) ≤ digits / 10 ^ places := by positivity
  have high : ¬ -(places : Int) > 2 ^ 11 := by omega
  have low : ¬ -(places : Int) < -((2 ^ 11 : Int) + digits.log2) := by omega
  have below : ¬ (0 : Int) ≤ -(places : Int) := by omega
  have magnitude : (- -(places : Int)).toNat = places := by omega
  have read : UnpackedFloat.ofScientific .binary64 digits (-(places : Int)) =
      UnpackedFloat.div .binary64 (.finite .positive digits 0 positive)
        (.finite .positive (10 ^ places) 0 (Nat.pow_pos (by decide))) := by
    rw [UnpackedFloat.ofScientific, dif_neg positive.ne', if_neg high, if_neg low,
      if_neg below]
    simp only [magnitude]
  have quotient := @Valued.div_finite .positive .positive digits (10 ^ places) 0 0 positive
    (Nat.pow_pos (by decide))
  rw [← read] at quotient
  have same : (digits : ℚ) * 2 ^ (0 : Int) / (((10 ^ places : Nat) : ℚ) * 2 ^ (0 : Int)) =
      digits / 10 ^ places := by simp
  rw [same] at quotient
  rw [rounded_of_nonneg nonneg]
  exact (quotient.valued nonneg bounded).hasValue

theorem HasValue.truncated_fewDigits {x : Float64} {a : ℚ} (value : HasValue x a) :
    FewDigits (truncated a) := by
  obtain ⟨v, e, small, low, rfl⟩ := Valued.fewDigits value
  rcases le_total 0 e with above | below
  · obtain ⟨k, rfl⟩ := Int.eq_ofNat_of_zero_le above
    have whole : (v : ℚ) * 2 ^ (k : Int) = ((v * 2 ^ k : Int) : ℚ) := by
      rw [zpow_natCast]
      push_cast
      rfl
    rw [whole, truncated_intCast, ← whole]
    exact ⟨v, k, small, low, rfl⟩
  · apply FewDigits.ofInt
    have power : (2 : ℚ) ^ e ≤ 1 := zpow_le_one_of_nonpos₀ (by norm_num) below
    have power' := two_zpow_pos e
    have high : (v : ℚ) ≤ 2 ^ 53 := by exact_mod_cast (by omega : v ≤ 2 ^ 53)
    have low : -2 ^ 53 ≤ (v : ℚ) := by exact_mod_cast (by omega : -2 ^ 53 ≤ v)
    have upper : truncated ((v : ℚ) * 2 ^ e) ≤ 2 ^ 53 := by
      apply truncated_le
      push_cast
      nlinarith
    have lower : -2 ^ 53 ≤ truncated ((v : ℚ) * 2 ^ e) := by
      apply le_truncated
      push_cast
      nlinarith
    omega

/-- Cutting off what stands behind the point. -/
theorem HasValue.trunc {x : Float64} {a : ℚ} (value : HasValue x a)
    (bounded : |(truncated a : ℚ)| < reach) : HasValue x.trunc (truncated a) := by
  have few := value.truncated_fewDigits
  unfold Float64.trunc
  cases unpacked : x.unpack with
  | finite sign m e positive =>
      have cut := Valued.toInt_eq value 0 0
      rw [unpacked] at cut
      change roundToInt sign m e = truncated a at cut
      dsimp only
      rw [cut]
      split
      · rename_i none
        rw [none, Int.cast_zero]
        exact (Valued.zero sign).hasValue
      · have whole := hasValue_ofInt bounded
        rwa [few.rounded_eq] at whole
  | zero sign =>
      rw [HasValue, unpacked] at value
      cases value with
      | zero =>
          have none : ((truncated 0 : Int) : ℚ) = 0 := by simp [truncated]
          rw [HasValue, unpacked, none]
          exact .zero _
  | infinity sign =>
      rw [HasValue, unpacked] at value
      cases value
  | notANumber =>
      rw [HasValue, unpacked] at value
      cases value

end Squrust.Foundation.Float64
