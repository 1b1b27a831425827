import Mathlib
import Squrust.Foundation.RationalDoubles

/-!
# Bounds of doubles

What a sum, a difference, a product or a quotient of doubles is need not be known to see
that it stays between two numbers of few digits, for rounding keeps the order and these
are not rounded (`Between`).

Sums, products and quotients of doubles that are not negative, and may be infinite, are
not negative, or no number (`NotNegative`).
-/

set_option autoImplicit false

namespace Squrust.Foundation.Float64

open Float.Model Float.Model.UnpackedFloat

/-! ## Bounds -/

/-- A bound that rounding respects. -/
structure Bound (q : ℚ) : Prop where
  few : FewDigits q
  small : |q| ≤ 2 ^ 200

theorem Bound.ofInt {v : Int} (small : v.natAbs ≤ 2 ^ 53) : Bound v := by
  refine ⟨.ofInt small, ?_⟩
  have magnitude : |(v : ℚ)| ≤ 2 ^ 53 := by
    rw [← Int.cast_abs, Int.abs_eq_natAbs]
    exact_mod_cast small
  exact magnitude.trans (pow_le_pow_right₀ (by norm_num) (by norm_num))

theorem Bound.pow {k : Nat} (small : k ≤ 200) : Bound (2 ^ k) := by
  refine ⟨⟨1, k, by decide, by omega, by norm_num⟩, ?_⟩
  rw [abs_of_nonneg (by positivity)]
  exact pow_le_pow_right₀ (by norm_num) small

theorem Bound.neg {q : ℚ} (bound : Bound q) : Bound (-q) := by
  obtain ⟨v, e, small, low, rfl⟩ := bound.few
  refine ⟨⟨-v, e, by rwa [Int.natAbs_neg], low, by push_cast; ring⟩, ?_⟩
  rw [abs_neg]
  exact bound.small

theorem Bound.dyadic {v : Int} {k : Nat} (small : v.natAbs ≤ 2 ^ 53) (few : k ≤ 1074) :
    Bound (v / 2 ^ k) := by
  refine ⟨⟨v, -k, small, by omega, ?_⟩, ?_⟩
  · rw [zpow_neg, zpow_natCast, div_eq_mul_inv]
  · have part : |(v : ℚ) / 2 ^ k| ≤ |(v : ℚ)| := by
      rw [abs_div, abs_of_pos (by positivity : (0 : ℚ) < 2 ^ k)]
      exact div_le_self (abs_nonneg _) (one_le_pow₀ (by norm_num))
    exact part.trans (Bound.ofInt small).small

/-! ## Results without rounding -/

namespace HasValue

variable {x y : Float64} {a b : ℚ}

theorem add_exact (left : HasValue x a) (right : HasValue y b) (bound : Bound (a + b)) :
    HasValue (x + y) (a + b) := by
  have value := left.add right (lt_reach bound.small)
  rwa [bound.few.rounded_eq] at value

theorem sub_exact (left : HasValue x a) (right : HasValue y b) (bound : Bound (a - b)) :
    HasValue (x - y) (a - b) := by
  have value := left.sub right (lt_reach bound.small)
  rwa [bound.few.rounded_eq] at value

theorem mul_exact (left : HasValue x a) (right : HasValue y b) (bound : Bound (a * b)) :
    HasValue (x * y) (a * b) := by
  have value := left.mul right (lt_reach bound.small)
  rwa [bound.few.rounded_eq] at value

theorem div_exact (left : HasValue x a) (right : HasValue y b) (some_ : b ≠ 0)
    (bound : Bound (a / b)) : HasValue (x / y) (a / b) := by
  have value := left.div right some_ (lt_reach bound.small)
  rwa [bound.few.rounded_eq] at value

theorem ofInt_exact {v : Int} (small : v.natAbs ≤ 2 ^ 53) : HasValue (ofInt v) v := by
  have value := hasValue_ofInt (lt_reach (Bound.ofInt small).small)
  rwa [(Bound.ofInt small).few.rounded_eq] at value

theorem lt_iff (left : HasValue x a) (right : HasValue y b) : x.lt y = true ↔ a < b := by
  rw [Float64.lt, left.partialCmp right, beq_iff_eq, Option.some.injEq, compare_lt_iff_lt]

theorem le_iff (left : HasValue x a) (right : HasValue y b) : x.le y = true ↔ a ≤ b := by
  rw [Float64.le, left.partialCmp right, Bool.or_eq_true, beq_iff_eq, beq_iff_eq,
    Option.some.injEq, Option.some.injEq, compare_lt_iff_lt, compare_eq_iff_eq, ← le_iff_lt_or_eq]

end HasValue

/-! ## Between bounds -/

/-- A finite double between bounds. -/
def Between (x : Float64) (low high : ℚ) : Prop := ∃ a, HasValue x a ∧ low ≤ a ∧ a ≤ high

theorem abs_lt_reach {q low high : ℚ} (low_ : Bound low) (high_ : Bound high) (below : low ≤ q)
    (above : q ≤ high) : |q| < reach := by
  have least := neg_abs_le low
  have greatest := le_abs_self high
  exact lt_reach (abs_le.mpr ⟨by linarith [low_.small], by linarith [high_.small]⟩)

theorem HasValue.between {x : Float64} {q low high : ℚ} (value : HasValue x (rounded q))
    (low_ : Bound low) (high_ : Bound high) (below : low ≤ q) (above : q ≤ high) :
    Between x low high :=
  ⟨_, value, le_rounded low_.few below, rounded_le high_.few above⟩

namespace Between

variable {x y : Float64} {low high low' high' b least greatest : ℚ}

theorem weaken (between : Between x low high) (below : least ≤ low) (above : high ≤ greatest) :
    Between x least greatest := by
  obtain ⟨a, value, lower, upper⟩ := between
  exact ⟨a, value, below.trans lower, upper.trans above⟩

theorem ofInt {v : Int} (low_ : Bound low) (high_ : Bound high) (below : low ≤ v)
    (above : v ≤ high) : Between (ofInt v) low high :=
  (hasValue_ofInt (abs_lt_reach low_ high_ below above)).between low_ high_ below above

theorem add (left : Between x low high) (right : Between y low' high') (least_ : Bound least)
    (greatest_ : Bound greatest) (below : least ≤ low + low') (above : high + high' ≤ greatest) :
    Between (x + y) least greatest := by
  obtain ⟨a, value, lower, upper⟩ := left
  obtain ⟨a', value', lower', upper'⟩ := right
  have below' : least ≤ a + a' := by linarith
  have above' : a + a' ≤ greatest := by linarith
  exact (value.add value' (abs_lt_reach least_ greatest_ below' above')).between
    least_ greatest_ below' above'

theorem sub (left : Between x low high) (right : Between y low' high') (least_ : Bound least)
    (greatest_ : Bound greatest) (below : least ≤ low - high') (above : high - low' ≤ greatest) :
    Between (x - y) least greatest := by
  obtain ⟨a, value, lower, upper⟩ := left
  obtain ⟨a', value', lower', upper'⟩ := right
  have below' : least ≤ a - a' := by linarith
  have above' : a - a' ≤ greatest := by linarith
  exact (value.sub value' (abs_lt_reach least_ greatest_ below' above')).between
    least_ greatest_ below' above'

theorem mul (left : Between x low high) (right : HasValue y b) (nonneg : 0 ≤ b)
    (least_ : Bound least) (greatest_ : Bound greatest) (below : least ≤ low * b)
    (above : high * b ≤ greatest) : Between (x * y) least greatest := by
  obtain ⟨a, value, lower, upper⟩ := left
  have below' : least ≤ a * b := below.trans (mul_le_mul_of_nonneg_right lower nonneg)
  have above' : a * b ≤ greatest := (mul_le_mul_of_nonneg_right upper nonneg).trans above
  exact (value.mul right (abs_lt_reach least_ greatest_ below' above')).between
    least_ greatest_ below' above'

theorem mul_comm' (left : HasValue x b) (right : Between y low high) (nonneg : 0 ≤ b)
    (least_ : Bound least) (greatest_ : Bound greatest) (below : least ≤ low * b)
    (above : high * b ≤ greatest) : Between (x * y) least greatest := by
  obtain ⟨a, value, lower, upper⟩ := right
  have below' : least ≤ b * a := by
    rw [mul_comm b]
    exact below.trans (mul_le_mul_of_nonneg_right lower nonneg)
  have above' : b * a ≤ greatest := by
    rw [mul_comm b]
    exact (mul_le_mul_of_nonneg_right upper nonneg).trans above
  exact (left.mul value (abs_lt_reach least_ greatest_ below' above')).between
    least_ greatest_ below' above'

theorem div (left : Between x low high) (right : HasValue y b) (positive : 0 < b)
    (least_ : Bound least) (greatest_ : Bound greatest) (below : least * b ≤ low)
    (above : high ≤ greatest * b) : Between (x / y) least greatest := by
  obtain ⟨a, value, lower, upper⟩ := left
  have below' : least ≤ a / b := (le_div_iff₀ positive).mpr (below.trans lower)
  have above' : a / b ≤ greatest := (div_le_iff₀ positive).mpr (upper.trans above)
  exact (value.div right positive.ne' (abs_lt_reach least_ greatest_ below' above')).between
    least_ greatest_ below' above'

/-- A quotient whose divisor is known between bounds. -/
theorem div_between (left : Between x low high) (right : Between y low' high') (positive : 0 < low')
    (nonneg : 0 ≤ least) (least_ : Bound least) (greatest_ : Bound greatest)
    (below : least * high' ≤ low) (above : high ≤ greatest * low') (nonneg' : 0 ≤ greatest) :
    Between (x / y) least greatest := by
  obtain ⟨b, value, lower, upper⟩ := right
  refine left.div value (positive.trans_le lower) least_ greatest_ ?_ ?_
  · exact (mul_le_mul_of_nonneg_left upper nonneg).trans below
  · exact above.trans (mul_le_mul_of_nonneg_left lower nonneg')

end Between

/-- A number that is written with a point, between bounds. -/
theorem literal_between {digits places : Nat} {low high : ℚ} (positive : 0 < digits)
    (behind : 0 < places) (few : places ≤ 2048) (low_ : Bound low) (high_ : Bound high)
    (below : low ≤ digits / 10 ^ places) (above : digits / 10 ^ places ≤ high) :
    Between (OfScientific.ofScientific digits true places) low high := by
  have reached := abs_lt_reach low_ high_ below above
  rw [abs_of_nonneg (by positivity)] at reached
  exact (hasValue_literal positive behind few reached).between low_ high_ below above

/-- A number that is written with a point and has few binary digits. -/
theorem literal_exact {digits places : Nat} {q : ℚ} (positive : 0 < digits) (behind : 0 < places)
    (few : places ≤ 2048) (bound : Bound q) (same : (digits : ℚ) / 10 ^ places = q) :
    HasValue (OfScientific.ofScientific digits true places) q := by
  obtain ⟨a, value, below, above⟩ :=
    literal_between positive behind few bound bound same.ge same.le
  rwa [le_antisymm above below] at value

/-! ## What is not a number, or infinite -/

theorem unpack_nan : (ofModel (.pack .notANumber)).unpack = .notANumber := rfl

theorem unpack_infinity (sign : Sign) :
    (ofModel (.pack (.infinity sign))).unpack = .infinity sign := by
  cases sign with
  | negative => rfl
  | positive => rfl

/-- A result that is too large is packed as an infinite one. -/
theorem Rounds.unpack {sign : Sign} {q : ℚ} {u : UnpackedFloat} (rounds : Rounds sign q u) :
    (ofModel (.pack u)).unpack = u ∨ (ofModel (.pack u)).unpack = .infinity sign := by
  cases rounds with
  | zero none => exact .inl (unpack_ofModel_pack (unpack_pack_zero sign))
  | @finite m e positive kept value =>
      by_cases high : e ≤ 971
      · exact .inl (unpack_ofModel_pack (Valued.finite positive kept high).stays)
      · right
        have normal : 2 ^ 52 ≤ m := by
          have low := kept.normal
          omega
        have digits : m.log2 = 52 := by
          rw [Nat.log2_eq_iff (by omega)]
          exact ⟨normal, kept.small⟩
        have large : UnpackedFloat.pack .binary64 (.finite sign m e positive) =
            UnpackedFloat.pack .binary64 (.infinity sign) := by
          rw [UnpackedFloat.pack]
          have field : 2 ^ 11 ≤ ((e + (1023 : Nat) + (52 : Nat)).toNat : Nat) + 1 := by omega
          exact if_pos field
        have same : Float.Model.pack (.finite sign m e positive) = .pack (.infinity sign) := by
          unfold Float.Model.pack
          simp only [large]
        rw [same]
        exact unpack_infinity sign

/-- A number, maybe infinite, without a sign. -/
inductive NotNegative : UnpackedFloat → Prop where
  | infinity : NotNegative (.infinity .positive)
  | zero : NotNegative (.zero .positive)
  | finite {m : Nat} {e : Int} {positive : 0 < m} : NotNegative (.finite .positive m e positive)

theorem notNegative_zero : NotNegative (ofModel (.pack (.zero .positive))).unpack := by
  rw [unpack_ofModel_pack (unpack_pack_zero .positive)]
  exact .zero

theorem notNegative_infinity :
    NotNegative (ofModel (.pack (.infinity .positive))).unpack := by
  rw [unpack_infinity]
  exact .infinity

theorem Rounds.notNegative {q : ℚ} {u : UnpackedFloat} (rounds : Rounds .positive q u) :
    NotNegative (ofModel (.pack u)).unpack := by
  rcases rounds.unpack with stays | large
  · rw [stays]
    cases rounds with
    | zero none => exact .zero
    | finite positive kept value => exact .finite
  · rw [large]
    exact .infinity

/-- What was unpacked is packed again. -/
theorem unpack_pack_unpack (x : Float64) : (ofModel (.pack x.unpack)).unpack = x.unpack := by
  rcases hasValue_or x with ⟨q, value⟩ | ⟨sign, infinite⟩ | nan
  · exact unpack_ofModel_pack (Valued.stays value)
  · rw [infinite, unpack_infinity]
  · rw [nan, unpack_nan]

theorem kept_of_unpack {x : Float64} {sign : Sign} {m : Nat} {e : Int} {positive : 0 < m}
    (unpacked : x.unpack = .finite sign m e positive) : Kept m e :=
  (unpack_kept unpacked).1

theorem unpack_nan_add {x : Float64} (y : Float64) (nan : x.unpack = .notANumber) :
    (x + y).unpack = .notANumber := by
  change (ofModel (.pack (UnpackedFloat.add .binary64 x.unpack y.unpack))).unpack = _
  rw [nan]
  exact unpack_nan

theorem unpack_add_nan (x : Float64) {y : Float64} (nan : y.unpack = .notANumber) :
    (x + y).unpack = .notANumber := by
  change (ofModel (.pack (UnpackedFloat.add .binary64 x.unpack y.unpack))).unpack = _
  rw [nan]
  cases x.unpack <;> exact unpack_nan

theorem unpack_nan_mul {x : Float64} (y : Float64) (nan : x.unpack = .notANumber) :
    (x * y).unpack = .notANumber := by
  change (ofModel (.pack (UnpackedFloat.mul .binary64 x.unpack y.unpack))).unpack = _
  rw [nan]
  exact unpack_nan

theorem unpack_mul_nan (x : Float64) {y : Float64} (nan : y.unpack = .notANumber) :
    (x * y).unpack = .notANumber := by
  change (ofModel (.pack (UnpackedFloat.mul .binary64 x.unpack y.unpack))).unpack = _
  rw [nan]
  cases x.unpack <;> exact unpack_nan

theorem toInt64_nan {x : Float64} (nan : x.unpack = .notANumber) : x.toInt64 = 0 := by
  change x.unpack.toInt64 = 0
  rw [nan]
  decide

/-- The double of a natural number. -/
theorem notNegative_ofInt (n : Nat) : NotNegative (ofInt n).unpack := by
  change NotNegative (ofModel (.pack (UnpackedFloat.normalize .binary64 n 0 .positive))).unpack
  rw [UnpackedFloat.normalize]
  rcases Nat.eq_zero_or_pos n with rfl | above
  · exact notNegative_zero
  · rw [compare_gt_iff_gt.mpr (by exact_mod_cast above)]
    exact (round_rounds (by omega)).notNegative

/-- A number above zero has no sign. -/
theorem HasValue.unpack_of_pos {x : Float64} {q : ℚ} (value : HasValue x q) (above : 0 < q) :
    ∃ m e positive, x.unpack = .finite .positive m e positive := by
  rw [HasValue] at value
  generalize x.unpack = u at value
  cases value with
  | zero sign => exact absurd rfl above.ne
  | @finite sign m e positive kept high =>
      cases sign with
      | positive => exact ⟨m, e, positive, rfl⟩
      | negative =>
          have magnitude := Valued.magnitude_pos positive e
          change 0 < -((m : ℚ) * 2 ^ e) at above
          linarith

theorem HasValue.notNegative {x : Float64} {q : ℚ} (value : HasValue x q) (above : 0 < q) :
    NotNegative x.unpack := by
  obtain ⟨m, e, positive, unpacked⟩ := value.unpack_of_pos above
  rw [unpacked]
  exact .finite

namespace NotNegative

variable {x y : Float64}

theorem add (left : NotNegative x.unpack) (right : NotNegative y.unpack) :
    NotNegative (x + y).unpack := by
  change NotNegative (ofModel (.pack (UnpackedFloat.add .binary64 x.unpack y.unpack))).unpack
  have stays := unpack_pack_unpack x
  have stays' := unpack_pack_unpack y
  generalize x.unpack = u at left stays ⊢
  generalize y.unpack = v at right stays' ⊢
  cases left with
  | infinity =>
      have sum : UnpackedFloat.add .binary64 (.infinity .positive) v = .infinity .positive := by
        cases right <;> rfl
      rw [sum, stays]
      exact .infinity
  | zero =>
      have sum : UnpackedFloat.add .binary64 (.zero .positive) v = v := by
        cases right <;> rfl
      rw [sum, stays']
      exact right
  | @finite m e positive =>
      cases right with
      | infinity =>
          change NotNegative (ofModel (.pack (.infinity .positive))).unpack
          rw [stays']
          exact .infinity
      | zero =>
          change NotNegative (ofModel (.pack (.finite .positive m e positive))).unpack
          rw [stays]
          exact .finite
      | @finite m' e' positive' =>
          rw [UnpackedFloat.add]
          dsimp only
          rw [UnpackedFloat.normalize]
          have above : (0 : Int) < Sign.apply .positive (decreaseExponent m e (min e e')).1 +
              Sign.apply .positive (decreaseExponent m' e' (min e e')).1 := by
            change (0 : Int) < ((m <<< (e - min e e').toNat : Nat) : Int) +
              (m' <<< (e' - min e e').toNat : Nat)
            rw [Nat.shiftLeft_eq, Nat.shiftLeft_eq]
            positivity
          rw [compare_gt_iff_gt.mpr above]
          exact (round_rounds (by omega)).notNegative

/-- Times a finite number above zero. -/
theorem mul {q : ℚ} (left : NotNegative x.unpack) (right : HasValue y q) (above : 0 < q) :
    NotNegative (x * y).unpack := by
  change NotNegative (ofModel (.pack (UnpackedFloat.mul .binary64 x.unpack y.unpack))).unpack
  obtain ⟨m', e', positive', unpacked⟩ := right.unpack_of_pos above
  have kept' := kept_of_unpack unpacked
  rw [unpacked]
  cases held : x.unpack with
  | notANumber =>
      rw [held] at left
      cases left
  | infinity sign =>
      rw [held] at left
      cases left with
      | infinity =>
          have product : UnpackedFloat.mul .binary64 (.infinity .positive)
              (.finite .positive m' e' positive') = .infinity .positive := rfl
          rw [product]
          exact notNegative_infinity
  | zero sign =>
      rw [held] at left
      cases left with
      | zero =>
          have product : UnpackedFloat.mul .binary64 (.zero .positive)
              (.finite .positive m' e' positive') = .zero .positive := rfl
          rw [product]
          exact notNegative_zero
  | finite sign m e positive =>
      rw [held] at left
      cases left with
      | finite =>
          have rounds := @Valued.mul_finite .positive .positive m m' e e' positive positive'
            (kept_of_unpack held) kept'
          exact rounds.notNegative

/-- What is infinite divided by what is infinite is no number, nor is zero divided by zero. -/
theorem div (left : NotNegative x.unpack) (right : NotNegative y.unpack) :
    (x / y).unpack = .notANumber ∨ NotNegative (x / y).unpack := by
  change (ofModel (.pack (UnpackedFloat.div .binary64 x.unpack y.unpack))).unpack = .notANumber ∨
    NotNegative (ofModel (.pack (UnpackedFloat.div .binary64 x.unpack y.unpack))).unpack
  generalize x.unpack = u at left
  generalize y.unpack = v at right
  have zeros : NotNegative v → v ≠ .zero .positive →
      UnpackedFloat.div .binary64 (.zero .positive) v = .zero .positive := by
    intro held some_
    cases held with
    | infinity => rfl
    | zero => exact absurd rfl some_
    | finite => rfl
  cases left with
  | infinity =>
      by_cases same : v = .infinity .positive
      · have quotient : UnpackedFloat.div .binary64 (.infinity .positive) v = .notANumber := by
          rw [same]
          rfl
        rw [quotient]
        exact .inl unpack_nan
      · have quotient : UnpackedFloat.div .binary64 (.infinity .positive) v = .infinity .positive := by
          cases right with
          | infinity => exact absurd rfl same
          | zero => rfl
          | finite => rfl
        rw [quotient]
        exact .inr notNegative_infinity
  | zero =>
      by_cases same : v = .zero .positive
      · have quotient : UnpackedFloat.div .binary64 (.zero .positive) v = .notANumber := by
          rw [same]
          rfl
        rw [quotient]
        exact .inl unpack_nan
      · rw [zeros right same]
        exact .inr notNegative_zero
  | @finite m e positive =>
      cases right with
      | infinity =>
          have quotient : UnpackedFloat.div .binary64 (.finite .positive m e positive)
              (.infinity .positive) = .zero .positive := rfl
          rw [quotient]
          exact .inr notNegative_zero
      | zero =>
          have quotient : UnpackedFloat.div .binary64 (.finite .positive m e positive)
              (.zero .positive) = .infinity .positive := rfl
          rw [quotient]
          exact .inr notNegative_infinity
      | @finite m' e' positive' =>
          have rounds := @Valued.div_finite .positive .positive m m' e e' positive positive'
          exact .inr rounds.notNegative

end NotNegative

/-- A finite number is less than an infinite one. -/
theorem HasValue.compare_infinity {x y : Float64} {q : ℚ} (value : HasValue y q)
    (infinite : x.unpack = .infinity .positive) : x.partialCmp y = some .gt := by
  change UnpackedFloat.compare x.unpack y.unpack = _
  rw [infinite]
  rw [HasValue] at value
  generalize y.unpack = u at value
  cases value with
  | zero sign => rfl
  | @finite sign m e positive kept high => cases sign <;> rfl

theorem HasValue.compare_negative_infinity {x y : Float64} {q : ℚ} (value : HasValue x q)
    (infinite : y.unpack = .infinity .negative) : x.partialCmp y = some .gt := by
  change UnpackedFloat.compare x.unpack y.unpack = _
  rw [infinite]
  rw [HasValue] at value
  generalize x.unpack = u at value
  cases value with
  | zero sign => rfl
  | @finite sign m e positive kept high => cases sign <;> rfl

/-- Between zero and a bound, when it is a number and not above that bound. -/
theorem NotNegative.between {x limit : Float64} {q high : ℚ} (held : NotNegative x.unpack)
    (bound : HasValue limit q) (le : q ≤ high) (notAbove : limit.lt x = false) :
    Between x 0 high := by
  rcases hasValue_or x with ⟨a, value⟩ | ⟨sign, infinite⟩ | nan
  · have order : limit.partialCmp x = some (compare q a) := bound.partialCmp value
    have below : a ≤ q := by
      by_contra more
      rw [lt, order, compare_lt_iff_lt.mpr (not_le.mp more)] at notAbove
      exact absurd notAbove (by decide)
    refine ⟨a, value, ?_, below.trans le⟩
    rw [HasValue] at value
    generalize x.unpack = u at held value
    cases value with
    | zero sign => exact le_rfl
    | @finite sign m e positive kept high =>
        cases held with
        | finite => exact (Valued.magnitude_pos positive e).le
  · rw [infinite] at held
    cases held with
    | infinity =>
        have order : limit.partialCmp x = some .lt := by
          change UnpackedFloat.compare limit.unpack x.unpack = _
          rw [infinite]
          rw [HasValue] at bound
          generalize limit.unpack = u at bound
          cases bound with
          | zero sign => rfl
          | @finite sign m e positive kept high => cases sign <;> rfl
        rw [lt, order] at notAbove
        exact absurd notAbove (by decide)
  · rw [nan] at held
    cases held

end Squrust.Foundation.Float64
