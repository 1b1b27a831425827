import Mathlib.Algebra.Order.Floor.Semifield
import Mathlib.Algebra.Order.Field.Rat
import Mathlib.Data.Int.Log
import Mathlib.Data.Rat.Floor
import Mathlib.Tactic.FieldSimp
import Mathlib.Tactic.Linarith
import Mathlib.Tactic.Positivity

/-!
# Rounding rationals to 53 digits

A rational is rounded to the nearest one that has 53 binary digits and an exponent of at
least -1074; halfway between two of them it goes to the one whose last digit is even
(`rounded`).

Rounding keeps the order (`rounded_mono`) and does not change what has few digits
(`rounded_of_digits`), so that a bound that has few digits stays a bound
(`rounded_le`, `le_rounded`).
-/

set_option autoImplicit false

namespace Squrust.Foundation

/-! ## To an integer -/

/-- The nearest integer, and the even one in the middle. -/
def nearestEven (q : ℚ) : Nat :=
  if q - ⌊q⌋₊ < 1 / 2 then ⌊q⌋₊
  else if q - ⌊q⌋₊ = 1 / 2 then ⌊q⌋₊ + ⌊q⌋₊ % 2
  else ⌊q⌋₊ + 1

theorem floor_le_nearestEven (q : ℚ) : ⌊q⌋₊ ≤ nearestEven q := by
  unfold nearestEven
  split_ifs <;> omega

theorem nearestEven_le_floor (q : ℚ) : nearestEven q ≤ ⌊q⌋₊ + 1 := by
  unfold nearestEven
  split_ifs <;> omega

@[simp] theorem nearestEven_natCast (n : Nat) : nearestEven n = n := by
  rw [nearestEven, Nat.floor_natCast, sub_self, if_pos (by norm_num)]

theorem nearestEven_mono {q q' : ℚ} (le : q ≤ q') : nearestEven q ≤ nearestEven q' := by
  rcases (Nat.floor_mono le).lt_or_eq with less | same
  · exact (nearestEven_le_floor q).trans (Nat.succ_le_of_lt less |>.trans (floor_le_nearestEven q'))
  · have rests : q - ⌊q⌋₊ ≤ q' - ⌊q⌋₊ := by linarith
    rcases lt_trichotomy (q' - ⌊q⌋₊) (1 / 2) with low | middle | high
    · rw [nearestEven, nearestEven, ← same, if_pos (rests.trans_lt low), if_pos low]
    · rw [nearestEven, nearestEven, ← same, if_neg middle.not_lt, if_pos middle]
      rcases (rests.trans_eq middle).lt_or_eq with low | middle'
      · rw [if_pos low]
        exact Nat.le_add_right _ _
      · rw [if_neg middle'.not_lt, if_pos middle']
    · refine (nearestEven_le_floor q).trans ?_
      rw [nearestEven, ← same, if_neg high.not_gt, if_neg high.ne']

/-! ## To 53 digits -/

/-- The exponent of the last digit that is kept. -/
def lastDigit (q : ℚ) : Int := max (Int.log 2 q - 52) (-1074)

/-- A rational that is not negative, rounded. -/
def roundedAbs (q : ℚ) : ℚ := nearestEven (q / 2 ^ lastDigit q) * 2 ^ lastDigit q

theorem two_zpow_pos (e : Int) : (0 : ℚ) < 2 ^ e := zpow_pos (by norm_num) e

theorem lastDigit_mono {q q' : ℚ} (positive : 0 < q) (le : q ≤ q') : lastDigit q ≤ lastDigit q' := by
  have logs := @Int.log_mono_right ℚ _ _ _ _ 2 q q' positive le
  unfold lastDigit
  omega

/-- Few digits from some exponent on: a bound that rounding respects. -/
theorem nearestEven_div {n : Nat} {e last : Int} (le : last ≤ e) :
    (nearestEven ((n : ℚ) * 2 ^ e / 2 ^ last) : ℚ) * 2 ^ last = n * 2 ^ e := by
  obtain ⟨k, rfl⟩ : ∃ k : Nat, e = last + k := ⟨(e - last).toNat, by omega⟩
  have power := (two_zpow_pos last).ne'
  have whole : (n : ℚ) * 2 ^ (last + (k : Int)) / 2 ^ last = (n * 2 ^ k : Nat) := by
    rw [zpow_add₀ (by norm_num), zpow_natCast]
    push_cast
    field_simp
  rw [whole, nearestEven_natCast, zpow_add₀ (by norm_num), zpow_natCast]
  push_cast
  ring

/-- The leading digit is that of the part before the point, if there is one. -/
theorem log_mul_zpow {q : ℚ} {n : Nat} (positive : n ≠ 0) (low : n ≤ q) (high : q < n + 1) (e : Int) :
    Int.log 2 (q * 2 ^ e) = n.log2 + e := by
  have lower : (2 : ℚ) ^ (n.log2 : Int) ≤ n := by
    rw [zpow_natCast]
    exact_mod_cast Nat.log2_self_le positive
  have upper : (n : ℚ) + 1 ≤ 2 ^ ((n.log2 : Int) + 1) := by
    exact_mod_cast Nat.succ_le_of_lt (@Nat.lt_log2_self n)
  have power := two_zpow_pos e
  have above : 0 < q := (two_zpow_pos _).trans_le (lower.trans low)
  apply le_antisymm
  · rw [← Int.lt_add_one_iff, ← Int.lt_zpow_iff_log_lt (by norm_num) (by positivity)]
    calc q * 2 ^ e < 2 ^ ((n.log2 : Int) + 1) * 2 ^ e := by
          have less := high.trans_le upper
          gcongr
      _ = ((2 : Nat) : ℚ) ^ ((n.log2 : Int) + e + 1) := by
          rw [← zpow_add₀ (by norm_num)]
          push_cast
          congr 1
          ring
  · rw [← Int.zpow_le_iff_le_log (by norm_num) (by positivity)]
    calc ((2 : Nat) : ℚ) ^ ((n.log2 : Int) + e) = 2 ^ (n.log2 : Int) * 2 ^ e := by
          push_cast
          exact zpow_add₀ (by norm_num) _ _
      _ ≤ q * 2 ^ e := by
          have le := lower.trans low
          gcongr

/-- Digits before the point and an exponent. -/
theorem log_natCast_mul_zpow {n : Nat} (positive : n ≠ 0) (e : Int) :
    Int.log 2 ((n : ℚ) * 2 ^ e) = n.log2 + e :=
  log_mul_zpow positive le_rfl (lt_add_one _) e

theorem scale_mono {q q' : ℚ} (last : Int) (le : q ≤ q') :
    (nearestEven (q / 2 ^ last) : ℚ) * 2 ^ last ≤ nearestEven (q' / 2 ^ last) * 2 ^ last := by
  have power := two_zpow_pos last
  have digits : nearestEven (q / 2 ^ last) ≤ nearestEven (q' / 2 ^ last) :=
    nearestEven_mono (by gcongr)
  have cast : (nearestEven (q / 2 ^ last) : ℚ) ≤ nearestEven (q' / 2 ^ last) := by
    exact_mod_cast digits
  gcongr

/-- A power of two that is not smaller than a digit is not rounded. -/
theorem nearestEven_zpow {e last : Int} (le : last ≤ e) :
    (nearestEven ((2 : ℚ) ^ e / 2 ^ last) : ℚ) * 2 ^ last = 2 ^ e := by
  simpa using @nearestEven_div 1 e last le

/-- At most 53 digits are kept, and as many if the exponent can be lowered. -/
theorem nearestEven_digits {q : ℚ} (positive : 0 < q) :
    nearestEven (q / 2 ^ lastDigit q) ≤ 2 ^ 53 ∧
      (2 ^ 52 ≤ nearestEven (q / 2 ^ lastDigit q) ∨ lastDigit q = -1074) := by
  have power := two_zpow_pos (lastDigit q)
  constructor
  · rw [← nearestEven_natCast (2 ^ 53)]
    apply nearestEven_mono
    rw [div_le_iff₀ power]
    have next := @Int.lt_zpow_succ_log_self ℚ _ _ _ _ 2 (by norm_num) q
    calc q ≤ 2 ^ (Int.log 2 q + 1) := by exact_mod_cast next.le
      _ ≤ 2 ^ (53 + lastDigit q) := by
          refine zpow_le_zpow_right₀ (by norm_num) ?_
          unfold lastDigit
          omega
      _ = ((2 ^ 53 : Nat) : ℚ) * 2 ^ lastDigit q := by
          rw [zpow_add₀ (by norm_num)]
          norm_num
  · by_cases least : lastDigit q = -1074
    · exact .inr least
    · left
      have exponent : lastDigit q = Int.log 2 q - 52 := by
        unfold lastDigit at least ⊢
        omega
      rw [← nearestEven_natCast (2 ^ 52)]
      apply nearestEven_mono
      rw [le_div_iff₀ power]
      calc ((2 ^ 52 : Nat) : ℚ) * 2 ^ lastDigit q = 2 ^ Int.log 2 q := by
            rw [exponent, zpow_sub₀ (by norm_num)]
            push_cast
            field_simp
        _ ≤ q := by exact_mod_cast @Int.zpow_log_le_self ℚ _ _ _ _ 2 q (by norm_num) positive

theorem roundedAbs_mono {q q' : ℚ} (positive : 0 < q) (le : q ≤ q') :
    roundedAbs q ≤ roundedAbs q' := by
  rcases (lastDigit_mono positive le).lt_or_eq with less | same
  · -- There is a power of two between them.
    have exponent : lastDigit q' = Int.log 2 q' - 52 := by
      unfold lastDigit at less ⊢
      omega
    have below : q ≤ 2 ^ Int.log 2 q' := by
      have step : Int.log 2 q + 1 ≤ Int.log 2 q' := by
        unfold lastDigit at less
        omega
      have next := @Int.lt_zpow_succ_log_self ℚ _ _ _ _ 2 (by norm_num) q
      refine next.le.trans ?_
      push_cast
      exact zpow_le_zpow_right₀ (by norm_num) step
    have above : 2 ^ Int.log 2 q' ≤ q' := by
      exact_mod_cast @Int.zpow_log_le_self ℚ _ _ _ _ 2 q' (by norm_num) (positive.trans_le le)
    calc roundedAbs q
        ≤ nearestEven (2 ^ Int.log 2 q' / 2 ^ lastDigit q) * 2 ^ lastDigit q := scale_mono _ below
      _ = 2 ^ Int.log 2 q' := nearestEven_zpow (by omega)
      _ = nearestEven (2 ^ Int.log 2 q' / 2 ^ lastDigit q') * 2 ^ lastDigit q' :=
          (nearestEven_zpow (by omega)).symm
      _ ≤ roundedAbs q' := scale_mono _ above
  · unfold roundedAbs
    rw [← same]
    exact scale_mono _ le

theorem roundedAbs_nonneg (q : ℚ) : 0 ≤ roundedAbs q :=
  mul_nonneg (Nat.cast_nonneg _) (two_zpow_pos _).le

@[simp] theorem roundedAbs_zero : roundedAbs 0 = 0 := by
  have none := nearestEven_natCast 0
  rw [Nat.cast_zero] at none
  rw [roundedAbs, zero_div, none, Nat.cast_zero, zero_mul]

theorem roundedAbs_of_digits {n : Nat} {e : Int} (few : n ≤ 2 ^ 53) (low : -1074 ≤ e) :
    roundedAbs (n * 2 ^ e) = n * 2 ^ e := by
  have fewer : ∀ (n : Nat) (e : Int), n < 2 ^ 53 → -1074 ≤ e →
      roundedAbs (n * 2 ^ e) = n * 2 ^ e := by
    intro n e small low
    by_cases none : n = 0
    · subst none
      simp
    · have digits : n.log2 < 53 := (Nat.log2_lt none).mpr small
      refine nearestEven_div ?_
      rw [lastDigit, log_natCast_mul_zpow none]
      omega
  rcases few.lt_or_eq with small | rfl
  · exact fewer n e small low
  · have same : ((2 ^ 53 : Nat) : ℚ) * 2 ^ e = (2 ^ 52 : Nat) * 2 ^ (e + 1) := by
      rw [zpow_add₀ (by norm_num)]
      push_cast
      ring
    rw [same]
    exact fewer _ _ (by decide) (by omega)

/-! ## With a sign -/

/-- A rational, rounded. -/
def rounded (q : ℚ) : ℚ := if q < 0 then -roundedAbs (-q) else roundedAbs q

@[simp] theorem rounded_zero : rounded 0 = 0 := by
  rw [rounded, if_neg (lt_irrefl _), roundedAbs_zero]

theorem rounded_of_nonneg {q : ℚ} (nonneg : 0 ≤ q) : rounded q = roundedAbs q :=
  if_neg (not_lt.mpr nonneg)

theorem rounded_neg (q : ℚ) : rounded (-q) = -rounded q := by
  rcases lt_trichotomy q 0 with below | rfl | above
  · rw [rounded, rounded, if_neg (by linarith), if_pos below, neg_neg]
  · simp
  · rw [rounded, rounded, if_pos (by linarith), if_neg (by linarith), neg_neg]

/-- **Rounding keeps the order.** -/
theorem rounded_mono {q q' : ℚ} (le : q ≤ q') : rounded q ≤ rounded q' := by
  unfold rounded
  split_ifs with below below'
  · exact neg_le_neg (roundedAbs_mono (by linarith) (by linarith))
  · exact (neg_nonpos.mpr (roundedAbs_nonneg _)).trans (roundedAbs_nonneg _)
  · linarith
  · rcases (not_lt.mp below).eq_or_lt with rfl | positive
    · rw [roundedAbs_zero]
      exact roundedAbs_nonneg _
    · exact roundedAbs_mono positive le

/-- 53 digits and an exponent. -/
def FewDigits (q : ℚ) : Prop := ∃ (v : Int) (e : Int), v.natAbs ≤ 2 ^ 53 ∧ -1074 ≤ e ∧ q = v * 2 ^ e

theorem FewDigits.rounded_eq {q : ℚ} (few : FewDigits q) : rounded q = q := by
  obtain ⟨v, e, small, low, rfl⟩ := few
  obtain ⟨n, rfl | rfl⟩ := Int.eq_nat_or_neg v
  · rw [Int.natAbs_natCast] at small
    have nonneg : (0 : ℚ) ≤ (n : Int) * 2 ^ e := by
      have power := two_zpow_pos e
      positivity
    rw [rounded_of_nonneg nonneg]
    exact_mod_cast roundedAbs_of_digits small low
  · rw [Int.natAbs_neg, Int.natAbs_natCast] at small
    have nonneg : (0 : ℚ) ≤ (n : Int) * 2 ^ e := by
      have power := two_zpow_pos e
      positivity
    rw [Int.cast_neg, neg_mul, rounded_neg, rounded_of_nonneg nonneg]
    have same := roundedAbs_of_digits small low
    rw [Int.cast_natCast, same]

theorem FewDigits.ofInt {v : Int} (small : v.natAbs ≤ 2 ^ 53) : FewDigits v :=
  ⟨v, 0, small, by decide, by simp⟩

/-- A bound of few digits stays one. -/
theorem rounded_le {q bound : ℚ} (few : FewDigits bound) (le : q ≤ bound) : rounded q ≤ bound :=
  (rounded_mono le).trans_eq few.rounded_eq

theorem le_rounded {q bound : ℚ} (few : FewDigits bound) (le : bound ≤ q) : bound ≤ rounded q :=
  few.rounded_eq.symm.trans_le (rounded_mono le)

/-! ## Cutting off -/

/-- The integer towards zero. -/
def truncated (q : ℚ) : Int := if q < 0 then -⌊-q⌋₊ else ⌊q⌋₊

theorem truncated_neg (q : ℚ) : truncated (-q) = -truncated q := by
  rcases lt_trichotomy q 0 with below | rfl | above
  · rw [truncated, truncated, if_neg (by linarith), if_pos below, neg_neg]
  · simp [truncated]
  · rw [truncated, truncated, if_pos (by linarith), if_neg (by linarith), neg_neg]

theorem truncated_mono {q q' : ℚ} (le : q ≤ q') : truncated q ≤ truncated q' := by
  unfold truncated
  split_ifs with below below'
  · have floors := Nat.floor_mono (neg_le_neg le)
    omega
  · omega
  · linarith
  · have floors := Nat.floor_mono le
    omega

@[simp] theorem truncated_intCast (v : Int) : truncated v = v := by
  obtain ⟨n, rfl | rfl⟩ := Int.eq_nat_or_neg v
  · rw [truncated, if_neg (by simp), Int.cast_natCast, Nat.floor_natCast]
  · rw [Int.cast_neg, truncated_neg, truncated, if_neg (by simp), Int.cast_natCast,
      Nat.floor_natCast]

theorem truncated_le {q : ℚ} {bound : Int} (le : q ≤ bound) : truncated q ≤ bound :=
  (truncated_mono le).trans_eq (truncated_intCast bound)

theorem le_truncated {q : ℚ} {bound : Int} (le : bound ≤ q) : bound ≤ truncated q :=
  (truncated_intCast bound).symm.trans_le (truncated_mono le)

end Squrust.Foundation
