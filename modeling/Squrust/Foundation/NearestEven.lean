import Mathlib.Algebra.Order.Ring.Nat
import Mathlib.Data.Nat.Log
import Mathlib.Tactic.Common
import Mathlib.Tactic.Ring

/-!
# Rounding integers to 53 digits

An integer is rounded to the nearest one that has 53 binary digits and an exponent;
halfway between two of them it goes to the one whose last digit is even (`nearest`).

Rounding keeps the order (`nearest_mono`), and what is rounded is not changed by
rounding it again (`nearest_nearest`). Up to 2^53 nothing is rounded (`nearest_of_le`).
-/

set_option autoImplicit false

namespace Squrust.Foundation

/-- `m / 2^d`, rounded to the nearest, and to the even in the middle. -/
def roundShift (m d : Nat) : Nat :=
  if 2 * (m % 2 ^ d) < 2 ^ d then m / 2 ^ d
  else if 2 * (m % 2 ^ d) = 2 ^ d then m / 2 ^ d + m / 2 ^ d % 2
  else m / 2 ^ d + 1

@[simp] theorem roundShift_zero (m : Nat) : roundShift m 0 = m := by
  simp [roundShift, Nat.mod_one]

theorem le_roundShift (m d : Nat) : m / 2 ^ d ≤ roundShift m d := by
  unfold roundShift
  split
  · exact le_rfl
  · split <;> omega

theorem roundShift_le (m d : Nat) : roundShift m d ≤ m / 2 ^ d + 1 := by
  unfold roundShift
  split
  · omega
  · split <;> omega

/-- Both scaled by the same power. -/
theorem roundShift_mul_pow (m d j : Nat) : roundShift (m * 2 ^ j) (d + j) = roundShift m d := by
  have scale : 0 < 2 ^ j := Nat.two_pow_pos j
  have quotient : m * 2 ^ j / (2 ^ d * 2 ^ j) = m / 2 ^ d := Nat.mul_div_mul_right _ _ scale
  have rest : 2 * (m * 2 ^ j % (2 ^ d * 2 ^ j)) = 2 * (m % 2 ^ d) * 2 ^ j := by
    rw [Nat.mul_mod_mul_right, Nat.mul_assoc]
  rw [roundShift, roundShift, Nat.pow_add, quotient, rest]
  simp only [Nat.mul_lt_mul_right scale, Nat.mul_left_inj scale.ne']

/-- A multiple of the power is not rounded. -/
theorem roundShift_exact (m d : Nat) : roundShift (m * 2 ^ d) d = m := by
  simpa using roundShift_mul_pow m 0 d

theorem roundShift_mono {m m' : Nat} (d : Nat) (le : m ≤ m') : roundShift m d ≤ roundShift m' d := by
  have quotients : m / 2 ^ d ≤ m' / 2 ^ d := Nat.div_le_div_right le
  rcases quotients.lt_or_eq with less | same
  · exact (roundShift_le m d).trans (Nat.succ_le_of_lt less |>.trans (le_roundShift m' d))
  · have split := Nat.div_add_mod m (2 ^ d)
    have split' := Nat.div_add_mod m' (2 ^ d)
    rw [← same] at split'
    have rests : m % 2 ^ d ≤ m' % 2 ^ d := by omega
    unfold roundShift
    rw [← same]
    split_ifs <;> omega

/-! ## Natural numbers -/

/-- How many digits are too many. -/
def excess (n : Nat) : Nat := n.log2 - 52

def nearestNat (n : Nat) : Nat := roundShift n (excess n) * 2 ^ excess n

theorem nearestNat_of_dvd {n : Nat} (whole : 2 ^ excess n ∣ n) : nearestNat n = n := by
  rw [nearestNat]
  generalize excess n = k at whole
  obtain ⟨m, rfl⟩ := whole
  rw [Nat.mul_comm (2 ^ k), roundShift_exact]

theorem log2_mul_pow {m : Nat} (positive : m ≠ 0) (k : Nat) : (m * 2 ^ k).log2 = m.log2 + k := by
  rw [Nat.log2_eq_iff (Nat.mul_pos (Nat.pos_of_ne_zero positive) (Nat.two_pow_pos k)).ne']
  have lower := Nat.log2_self_le positive
  have upper := @Nat.lt_log2_self m
  refine ⟨?_, ?_⟩
  · rw [Nat.pow_add]
    exact Nat.mul_le_mul_right _ lower
  · rw [Nat.add_right_comm, Nat.pow_add]
    exact Nat.mul_lt_mul_of_pos_right upper (Nat.two_pow_pos k)

/-- 53 digits and an exponent are not rounded. -/
theorem nearestNat_mul_pow {m : Nat} (few : m ≤ 2 ^ 53) (k : Nat) :
    nearestNat (m * 2 ^ k) = m * 2 ^ k := by
  have fewer : ∀ m k : Nat, m < 2 ^ 53 → nearestNat (m * 2 ^ k) = m * 2 ^ k := by
    intro m k small
    by_cases none : m = 0
    · subst none
      simp [nearestNat, excess]
    · have digits : m.log2 < 53 := (Nat.log2_lt none).mpr small
      have within : excess (m * 2 ^ k) ≤ k := by
        rw [excess, log2_mul_pow none]
        omega
      exact nearestNat_of_dvd (Dvd.dvd.mul_left (Nat.pow_dvd_pow 2 within) m)
  rcases few.lt_or_eq with small | rfl
  · exact fewer m k small
  · have same : 2 ^ 53 * 2 ^ k = 2 ^ 52 * 2 ^ (k + 1) := by ring
    rw [same]
    exact fewer _ _ (by decide)

theorem nearestNat_of_le {n : Nat} (small : n ≤ 2 ^ 53) : nearestNat n = n := by
  simpa using nearestNat_mul_pow small 0

/-- The digits that are kept. -/
theorem roundShift_excess_bounds {n : Nat} (many : 52 ≤ n.log2) :
    2 ^ 52 ≤ roundShift n (excess n) ∧ roundShift n (excess n) ≤ 2 ^ 53 := by
  have positive : n ≠ 0 := by
    rintro rfl
    simp at many
  have lower := Nat.log2_self_le positive
  have upper := @Nat.lt_log2_self n
  have low : 2 ^ n.log2 = 2 ^ 52 * 2 ^ excess n := by
    rw [← Nat.pow_add, excess]
    congr 1
    omega
  have high : 2 ^ (n.log2 + 1) = 2 ^ 53 * 2 ^ excess n := by
    rw [← Nat.pow_add, excess]
    congr 1
    omega
  rw [low] at lower
  rw [high] at upper
  have quotient : 2 ^ 52 ≤ n / 2 ^ excess n := (Nat.le_div_iff_mul_le (Nat.two_pow_pos _)).mpr lower
  have quotient' : n / 2 ^ excess n < 2 ^ 53 := (Nat.div_lt_iff_lt_mul (Nat.two_pow_pos _)).mpr upper
  exact ⟨quotient.trans (le_roundShift _ _), (roundShift_le _ _).trans quotient'⟩

/-- Rounding stays between the powers of two next to a number. -/
theorem nearestNat_bounds {n : Nat} (positive : n ≠ 0) :
    2 ^ n.log2 ≤ nearestNat n ∧ nearestNat n ≤ 2 ^ (n.log2 + 1) := by
  by_cases many : 52 ≤ n.log2
  · obtain ⟨lower, upper⟩ := roundShift_excess_bounds many
    have low : 2 ^ n.log2 = 2 ^ 52 * 2 ^ excess n := by
      rw [← Nat.pow_add, excess]
      congr 1
      omega
    have high : 2 ^ (n.log2 + 1) = 2 ^ 53 * 2 ^ excess n := by
      rw [← Nat.pow_add, excess]
      congr 1
      omega
    rw [low, high, nearestNat]
    exact ⟨Nat.mul_le_mul_right _ lower, Nat.mul_le_mul_right _ upper⟩
  · have small : n ≤ 2 ^ 53 :=
      (Nat.lt_log2_self.trans_le (Nat.pow_le_pow_right (by decide) (by omega))).le
    rw [nearestNat_of_le small]
    exact ⟨Nat.log2_self_le positive, Nat.lt_log2_self.le⟩

theorem nearestNat_mono {a b : Nat} (le : a ≤ b) : nearestNat a ≤ nearestNat b := by
  by_cases none : a = 0
  · subst none
    simp [nearestNat, excess]
  · have some_ : b ≠ 0 := by omega
    have logs : a.log2 ≤ b.log2 := by
      by_contra more
      have apart := (Nat.lt_log2_self (n := b)).trans_le
        ((Nat.pow_le_pow_right (by decide) (not_le.mp more)).trans (Nat.log2_self_le none))
      omega
    rcases logs.lt_or_eq with less | same
    · exact (nearestNat_bounds none).2.trans
        ((Nat.pow_le_pow_right (by decide) less).trans (nearestNat_bounds some_).1)
    · have excesses : excess a = excess b := by rw [excess, excess, same]
      rw [nearestNat, nearestNat, excesses]
      exact Nat.mul_le_mul_right _ (roundShift_mono _ le)

theorem nearestNat_nearestNat (n : Nat) : nearestNat (nearestNat n) = nearestNat n := by
  by_cases many : 52 ≤ n.log2
  · exact nearestNat_mul_pow (roundShift_excess_bounds many).2 _
  · have small : n ≤ 2 ^ 53 :=
      (Nat.lt_log2_self.trans_le (Nat.pow_le_pow_right (by decide) (by omega))).le
    rw [nearestNat_of_le small, nearestNat_of_le small]

theorem nearestNat_pos {n : Nat} (positive : n ≠ 0) : 0 < nearestNat n :=
  (Nat.two_pow_pos _).trans_le (nearestNat_bounds positive).1

/-! ## Integers -/

/-- An integer, rounded to 53 digits. -/
def nearest (v : Int) : Int := if v < 0 then -(nearestNat v.natAbs : Int) else nearestNat v.natAbs

@[simp] theorem nearest_natCast (n : Nat) : nearest n = nearestNat n := by
  rw [nearest, if_neg (by omega), Int.natAbs_natCast]

@[simp] theorem nearest_zero : nearest 0 = 0 := rfl

theorem nearest_neg (v : Int) : nearest (-v) = -nearest v := by
  rcases lt_trichotomy v 0 with below | rfl | above
  · rw [nearest, nearest, if_neg (by omega), if_pos below, Int.natAbs_neg, neg_neg]
  · rfl
  · rw [nearest, nearest, if_pos (by omega), if_neg (by omega), Int.natAbs_neg]

theorem natAbs_nearest (v : Int) : (nearest v).natAbs = nearestNat v.natAbs := by
  unfold nearest
  split
  · rw [Int.natAbs_neg, Int.natAbs_natCast]
  · rw [Int.natAbs_natCast]

theorem nearest_of_le {v : Int} (small : v.natAbs ≤ 2 ^ 53) : nearest v = v := by
  unfold nearest
  rw [nearestNat_of_le small]
  split <;> omega

/-- **Rounding keeps the order.** -/
theorem nearest_mono {a b : Int} (le : a ≤ b) : nearest a ≤ nearest b := by
  unfold nearest
  split_ifs with below below'
  · have rounded := nearestNat_mono (by omega : b.natAbs ≤ a.natAbs)
    omega
  · omega
  · omega
  · have rounded := nearestNat_mono (by omega : a.natAbs ≤ b.natAbs)
    omega

theorem nearest_nearest (v : Int) : nearest (nearest v) = nearest v := by
  have rounded : ∀ n : Nat, nearest (nearestNat n) = nearestNat n := fun n => by
    rw [nearest_natCast, nearestNat_nearestNat]
  rcases lt_or_ge v 0 with below | above
  · have same : nearest v = -(nearestNat v.natAbs : Int) := if_pos below
    rw [same, nearest_neg, rounded]
  · have same : nearest v = nearestNat v.natAbs := if_neg (by omega)
    rw [same, rounded]

@[simp] theorem nearest_eq_zero {v : Int} : nearest v = 0 ↔ v = 0 := by
  constructor
  · intro none
    by_contra some_
    have positive := nearestNat_pos (Int.natAbs_ne_zero.mpr some_)
    have rounded := natAbs_nearest v
    rw [none] at rounded
    exact absurd rounded.symm positive.ne'
  · rintro rfl
    rfl

end Squrust.Foundation
