import Squrust.Sql.Eval

/-!
# Substrings

`substr(X, Y, Z)` cuts a window out of a text: positions are from 1, a negative start
counts from the end, and a negative length reaches backwards.

The code moves a start before the text to position 1, and a start behind the text to
its end, and only then lays the window: the window is shifted where it should be
shortened. `substr_exact` says for which windows that makes no difference.
-/

set_option autoImplicit false

namespace Squrust.Sql

open Squrust.Foundation

/-- `chars[start..stop]` -/
def sliceChars (chars : Text) (start stop : Nat) : Outcome SqlError Text :=
  if start ≤ stop ∧ stop ≤ chars.length then .ok ((chars.take stop).drop start)
  else Outcome.panic "slice index out of range"

/-- `substr(X, Y [, Z])` -/
def substr (args : List Value) : Outcome SqlError Value :=
  match args with
  | [] | .null :: _ => .ok .null
  | v :: rest => do
      let chars := v.toDisplayString
      let n : Int := chars.length
      let start := (((rest[0]?).bind Value.asI64).map Int64.toInt).getD 1
      let start := if start < 0 then start + (n + 1) else start
      let start := if start < 1 then 1 else start
      let startIdx := (max 0 (min (start - 1) n)).toNat
      match rest[1]? with
      | some .null => return .null
      | some v =>
          let len := v.asI64.getD 0
          if len < 0 then do
            let take := (← negI64 len).toInt.toNat
            return .text (← sliceChars chars (startIdx - take) startIdx)
          else return .text ((chars.drop startIdx).take len.toInt.toNat)
      | none => return .text (chars.drop startIdx)

/-! ## Windows -/

/-- The first position of a window: from the end of `n` characters when it is negative. -/
def windowStart (n : Nat) (y : Int) : Int := if 0 ≤ y then y else n + 1 + y

/-- The positions of a window: forwards from its start, or backwards up to it. -/
def InWindow (n : Nat) (y z p : Int) : Prop :=
  if 0 ≤ z then windowStart n y ≤ p ∧ p < windowStart n y + z
  else windowStart n y + z ≤ p ∧ p < windowStart n y

instance (n : Nat) (y z p : Int) : Decidable (InWindow n y z p) :=
  inferInstanceAs (Decidable (if 0 ≤ z then _ ∧ _ else _ ∧ _))

/-- The characters of a text in a window. -/
def window (x : Text) (y z : Int) : Text :=
  ((x.zipIdx 1).filter fun place => InWindow x.length y z place.2).map Prod.fst

/-- The window starts and ends so that moving its start into the text does not move it. -/
def WindowKept (n : Nat) (y z : Int) : Prop :=
  if 0 ≤ z then 1 ≤ windowStart n y ∨ z = 0 ∨ n = 0 ∨ n < windowStart n y + z
  else windowStart n y ≤ n + 1 ∨ n = 0 ∨ windowStart n y + z ≤ 1

/-- The characters at the positions of an interval. -/
theorem map_filter_zipIdx (x : Text) (k : Nat) (a b : Int) :
    ((x.zipIdx k).filter fun place => a ≤ place.2 ∧ place.2 < b).map Prod.fst =
      (x.take (b - k).toNat).drop (a - k).toNat := by
  induction x generalizing k with
  | nil => rw [List.zipIdx_nil, List.take_nil, List.drop_nil]; rfl
  | cons c x ih =>
      rw [List.zipIdx_cons, List.filter_cons]
      have step : (k : Int) + 1 = (k + 1 : Nat) := rfl
      by_cases ended : b ≤ k
      · have none : (b - k).toNat = 0 := by omega
        have noneLater : (b - (k + 1 : Nat)).toNat = 0 := by omega
        rw [if_neg (by simp only [decide_eq_true_eq]; omega), ih, none, noneLater]
        simp only [List.take_zero, List.drop_nil]
      · have more : (b - k).toNat = (b - (k + 1 : Nat)).toNat + 1 := by omega
        rw [more, List.take_succ_cons]
        by_cases started : a ≤ k
        · have now : (a - k).toNat = 0 := by omega
          have later : (a - (k + 1 : Nat)).toNat = 0 := by omega
          rw [if_pos (by simp only [decide_eq_true_eq]; omega), List.map_cons, ih, now, later]
          rfl
        · have behind : (a - k).toNat = (a - (k + 1 : Nat)).toNat + 1 := by omega
          rw [if_neg (by simp only [decide_eq_true_eq]; omega), ih, behind]
          rfl

/-- A window is a slice. -/
theorem window_eq (x : Text) (y z : Int) :
    window x y z =
      if 0 ≤ z then (x.take (windowStart x.length y + z - 1).toNat).drop (windowStart x.length y - 1).toNat
      else (x.take (windowStart x.length y - 1).toNat).drop (windowStart x.length y + z - 1).toNat := by
  unfold window InWindow
  split
  · exact map_filter_zipIdx x 1 _ _
  · exact map_filter_zipIdx x 1 _ _

/-! ## What the code cuts -/

/-- The index where the code starts: in the text or at its ends. -/
def startIndex (n : Nat) (y : Int) : Nat := (max 0 (min (max 1 (windowStart n y) - 1) n)).toNat

theorem substr_eq (x : Text) (y z : Int64) :
    substr [.text x, .integer y, .integer z] =
      if z < 0 then do
        let take ← negI64 z
        let cut ← sliceChars x (startIndex x.length y.toInt - take.toInt.toNat) (startIndex x.length y.toInt)
        return .text cut
      else return .text ((x.drop (startIndex x.length y.toInt)).take z.toInt.toNat) := by
  have start : (let start := y.toInt
      let start := if start < 0 then start + ((x.length : Int) + 1) else start
      if start < 1 then 1 else start) = max 1 (windowStart x.length y.toInt) := by
    unfold windowStart
    dsimp only
    omega
  unfold startIndex
  rw [← start]
  rfl

/-- Forwards, the code is right when the start is in the text, or when nothing is lost. -/
theorem forward_iff (x : Text) (y : Int) {z : Int} (forwards : 0 ≤ z) :
    (x.drop (startIndex x.length y)).take z.toNat = window x y z ↔ WindowKept x.length y z := by
  rw [window_eq, if_pos forwards, List.drop_take, WindowKept, if_pos forwards, startIndex]
  constructor
  · intro same
    have lengths := congrArg List.length same
    simp only [List.length_take, List.length_drop] at lengths
    omega
  · intro kept
    by_cases inside : 1 ≤ windowStart x.length y
    · by_cases reached : windowStart x.length y - 1 ≤ x.length
      · have start : (max 0 (min (max 1 (windowStart x.length y) - 1) (x.length : Int))).toNat =
            (windowStart x.length y - 1).toNat := by
          omega
        have count : (windowStart x.length y + z - 1).toNat - (windowStart x.length y - 1).toNat =
            z.toNat := by
          omega
        rw [start, count]
      · rw [List.drop_of_length_le (by omega), List.drop_of_length_le (by omega), List.take_nil,
          List.take_nil]
    · have front : (max 0 (min (max 1 (windowStart x.length y) - 1) (x.length : Int))).toNat = 0 := by
        omega
      have front' : (windowStart x.length y - 1).toNat = 0 := by omega
      rw [front, front', List.drop_zero, Nat.sub_zero]
      rcases kept with absurd | none | empty | beyond
      · exact (inside absurd).elim
      · rw [show z.toNat = 0 by omega, show (windowStart x.length y + z - 1).toNat = 0 by omega]
      · rw [List.length_eq_zero_iff.mp (by omega : x.length = 0), List.take_nil, List.take_nil]
      · rw [List.take_of_length_le (by omega), List.take_of_length_le (by omega)]

/-- Backwards, the code is right when the start is in the text, or when nothing is lost. -/
theorem backward_iff (x : Text) (y : Int) {z : Int} (backwards : ¬ 0 ≤ z) :
    (x.take (startIndex x.length y)).drop (startIndex x.length y - (-z).toNat) = window x y z ↔
      WindowKept x.length y z := by
  rw [window_eq, if_neg backwards, WindowKept, if_neg backwards, startIndex]
  constructor
  · intro same
    have lengths := congrArg List.length same
    simp only [List.length_take, List.length_drop] at lengths
    omega
  · intro kept
    by_cases inside : windowStart x.length y ≤ x.length + 1
    · have stop : (max 0 (min (max 1 (windowStart x.length y) - 1) (x.length : Int))).toNat =
          (windowStart x.length y - 1).toNat := by
        omega
      have start : (windowStart x.length y - 1).toNat - (-z).toNat =
          (windowStart x.length y + z - 1).toNat := by
        omega
      rw [stop, start]
    · have stop : (max 0 (min (max 1 (windowStart x.length y) - 1) (x.length : Int))).toNat =
          x.length := by
        omega
      rw [stop, List.take_of_length_le (Nat.le_refl _), List.take_of_length_le (by omega)]
      rcases kept with absurd | empty | before
      · exact (inside absurd).elim
      · rw [List.length_eq_zero_iff.mp (by omega : x.length = 0), List.drop_nil, List.drop_nil]
      · rw [show x.length - (-z).toNat = 0 by omega,
          show (windowStart x.length y + z - 1).toNat = 0 by omega]

/-- The code cuts the window exactly when moving its start into the text does not shift it. -/
theorem substr_exact (x : Text) (y z : Int64) :
    substr [.text x, .integer y, .integer z] = .ok (.text (window x y.toInt z.toInt)) ↔
      z ≠ Int64.minValue ∧ WindowKept x.length y.toInt z.toInt := by
  have sign : z < 0 ↔ z.toInt < 0 := Int64.lt_iff_toInt_lt
  rw [substr_eq]
  by_cases backwards : z < 0
  · rw [if_pos backwards, negI64]
    by_cases smallest : z = Int64.minValue
    · rw [if_pos smallest]
      exact iff_of_false (fun same => by cases same) fun held => held.1 smallest
    · have apart : z.toInt ≠ -2 ^ 63 := fun same => smallest (Int64.toInt_inj.mp (same.trans (by decide)))
      have bottom : -2 ^ 63 ≤ z.toInt := z.le_toInt
      have top : z.toInt < 2 ^ 63 := z.toInt_lt
      have value : (-z).toInt = -z.toInt := by
        rw [Int64.toInt_neg, Int.bmod_eq_of_le (by omega) (by omega)]
      have slice : sliceChars x (startIndex x.length y.toInt - (-z).toInt.toNat)
          (startIndex x.length y.toInt) =
          .ok ((x.take (startIndex x.length y.toInt)).drop
            (startIndex x.length y.toInt - (-z).toInt.toNat)) := by
        refine if_pos ⟨Nat.sub_le _ _, ?_⟩
        unfold startIndex
        omega
      rw [if_neg smallest, Outcome.ok_bind, slice, Outcome.ok_bind, value,
        ← backward_iff x y.toInt (Int.not_le.mpr (sign.mp backwards))]
      simp only [Outcome.pure_eq_ok, Value.text.injEq, smallest, ne_eq, not_false_eq_true, true_and]
  · have smallest : z ≠ Int64.minValue := by
      rintro rfl
      exact backwards (by decide)
    have forwards : 0 ≤ z.toInt := Int.not_lt.mp (fun negative => backwards (sign.mpr negative))
    rw [if_neg backwards, ← forward_iff x y.toInt forwards]
    simp only [Outcome.pure_eq_ok, Value.text.injEq, smallest, ne_eq, not_false_eq_true, true_and]

/-- `substr('abc', 0, 2)` -/
theorem substr_from_zero :
    substr [.text "abc".toList, .integer 0, .integer 2] ≠ .ok (.text (window "abc".toList 0 2)) := by
  decide

end Squrust.Sql
