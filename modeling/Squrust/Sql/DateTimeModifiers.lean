import Squrust.Sql.DateTimeReads

/-!
# Reading modifiers

A modifier is read without a panic exactly if it is not blank (`readModifier_iff`): the first
byte of what is left of it is read without asking whether there is one. The slices are cut
between characters, at a character that was found or in front of the `s` of a plural. What is
read adds a bounded number of milliseconds (`Modifier.Few`).
-/

set_option autoImplicit false

namespace Squrust.Sql

open Squrust.Foundation Squrust.Foundation.Float64

/-! ## What a modifier adds -/

/-- What a modifier adds is bounded. -/
def Modifier.Few : Modifier → Prop
  | .weekday n => 0 ≤ n ∧ n ≤ 7
  | .offset delta => -2 ^ 30 ≤ delta ∧ delta ≤ 2 ^ 30
  | .units idx r rxform => (idx = 4 → -176546 ≤ asI64 r ∧ asI64 r ≤ 176546) ∧
      (idx = 5 → -14713 ≤ asI64 r ∧ asI64 r ≤ 14713) ∧
      -2 ^ 61 ≤ DateTime.unitsToMs idx r rxform ∧ DateTime.unitsToMs idx r rxform ≤ 2 ^ 61
  | _ => True

/-- A unit: the bound of its numbers and its length are integers of a small product. -/
structure SmallUnit (limit rxform : Float64) (e f : Nat) (l x : Int) : Prop where
  few : e + f ≤ 49
  limit_eq : limit = Float64.ofInt l
  negative : -limit = Float64.ofInt (-l)
  length_eq : rxform = Float64.ofInt x
  limit_le : l.natAbs ≤ 2 ^ e
  length_nonneg : 0 ≤ x
  length_le : x ≤ 2 ^ f

/-- **The table of units** is one of small units. -/
theorem xform_small {idx : Nat} {entry : Text × Float64 × Float64} (held : xform[idx]? = some entry) :
    ∃ e f l x, SmallUnit entry.2.1 entry.2.2 e f l x ∧ (idx = 4 → l = 176546) ∧ (idx = 5 → l = 14713) := by
  rcases idx with _ | _ | _ | _ | _ | _ | idx
  · obtain rfl := Option.some.inj held
    exact ⟨49, 0, 464270000000000, 1, ⟨by decide, by decide +kernel, by decide +kernel,
      by decide +kernel, by decide, by decide, by decide⟩, by decide, by decide⟩
  · obtain rfl := Option.some.inj held
    exact ⟨43, 6, 7737900000000, 60, ⟨by decide, by decide +kernel, by decide +kernel,
      by decide +kernel, by decide, by decide, by decide⟩, by decide, by decide⟩
  · obtain rfl := Option.some.inj held
    exact ⟨37, 12, 128970000000, 3600, ⟨by decide, by decide +kernel, by decide +kernel,
      by decide +kernel, by decide, by decide, by decide⟩, by decide, by decide⟩
  · obtain rfl := Option.some.inj held
    exact ⟨23, 17, 5373485, 86400, ⟨by decide, by decide +kernel, by decide +kernel,
      by decide +kernel, by decide, by decide, by decide⟩, by decide, by decide⟩
  · obtain rfl := Option.some.inj held
    exact ⟨18, 22, 176546, 2592000, ⟨by decide, by decide +kernel, by decide +kernel,
      by decide +kernel, by decide, by decide, by decide⟩, by decide, by decide⟩
  · obtain rfl := Option.some.inj held
    exact ⟨14, 25, 14713, 31536000, ⟨by decide, by decide +kernel, by decide +kernel,
      by decide +kernel, by decide, by decide, by decide⟩, by decide, by decide⟩
  · cases held

theorem lt_finite {low high r : Float64} {l h : ℚ} (low_ : HasValue low l) (high_ : HasValue high h)
    (below : low.lt r = true) (above : r.lt high = true) :
    ∃ a, HasValue r a ∧ l < a ∧ a < h := by
  have notBelow : low.partialCmp r ≠ some .gt := by
    intro order
    rw [Float64.lt, order] at below
    exact absurd below (by decide)
  obtain ⟨a, value⟩ := exists_value low_ high_ notBelow above
  exact ⟨a, value, (low_.lt_iff value).mp below, (value.lt_iff high_).mp above⟩

/-- Half a millisecond, towards the side of the number. -/
theorem between_rounder (r : Float64) :
    Between (if r.lt 0.0 then -0.5 else 0.5 : Float64) (-1 : Int) (1 : Int) := by
  split
  · have same : (-0.5 : Float64) = 0.0 - 0.5 := by decide +kernel
    have bound : Float64.Bound (0 - 1 / 2) := by
      have half := @Bound.dyadic (-1) 1 (by decide) (by decide)
      norm_num at half ⊢
      exact half
    rw [same]
    exact ⟨_, hasValue_zero.sub_exact DateTime.value_half bound, by norm_num, by norm_num⟩
  · exact ⟨_, DateTime.value_half, by norm_num, by norm_num⟩

/-- What a number has behind its point. -/
theorem between_sub_trunc {r : Float64} {e : Nat} (small : e ≤ 49)
    (between : Between r (-2 ^ e) (2 ^ e)) : Between (r - r.trunc) (-2 ^ (e + 1)) (2 ^ (e + 1)) := by
  obtain ⟨a, value, below, above⟩ := between
  have low : -(2 : Int) ^ e ≤ truncated a := le_truncated (by push_cast; exact below)
  have high : truncated a ≤ (2 : Int) ^ e := truncated_le (by push_cast; exact above)
  have low_ : -(2 : ℚ) ^ e ≤ truncated a := by exact_mod_cast low
  have high_ : (truncated a : ℚ) ≤ 2 ^ e := by exact_mod_cast high
  have bounded : |(truncated a : ℚ)| < reach :=
    abs_lt_reach (Bound.pow (by omega : e ≤ 200)).neg (Bound.pow (by omega)) low_ high_
  have power : (2 : ℚ) ^ (e + 1) = 2 * 2 ^ e := pow_succ' 2 e
  have part : Between r (-2 ^ e) (2 ^ e) := ⟨a, value, below, above⟩
  refine part.sub ⟨_, value.trunc bounded, low_, high_⟩ (Bound.pow (by omega)).neg
    (Bound.pow (by omega)) ?_ ?_
  · rw [power]
    linarith
  · rw [power]
    linarith

/-- A number of units that is let pass. -/
theorem SmallUnit.between {limit rxform r : Float64} {e f : Nat} {l x : Int}
    (small : SmallUnit limit rxform e f l x) (inRange : (-limit).lt r = true ∧ r.lt limit = true) :
    Between r (-l : Int) l := by
  have most : (2 : Int) ^ e ≤ 2 ^ 49 := pow_le_pow_right₀ (by decide) (by have := small.few; omega)
  have le := small.limit_le
  have reached : (l.natAbs : Int) ≤ 2 ^ e := by exact_mod_cast le
  have high : HasValue limit l := by
    rw [small.limit_eq]
    exact HasValue.ofInt_exact (by omega)
  have low : HasValue (-limit) (-l : Int) := by
    rw [small.negative]
    exact HasValue.ofInt_exact (by omega)
  obtain ⟨a, value, below, above⟩ := lt_finite low high inRange.1 inRange.2
  exact ⟨a, value, below.le, above.le⟩

theorem SmallUnit.between_pow {limit rxform r : Float64} {e f : Nat} {l x : Int}
    (small : SmallUnit limit rxform e f l x) (between : Between r (-l : Int) l) :
    Between r (-2 ^ e) (2 ^ e) := by
  have le := small.limit_le
  have reached : (l.natAbs : Int) ≤ 2 ^ e := by exact_mod_cast le
  refine between.weaken ?_ ?_
  · have whole : -2 ^ e ≤ -l := by omega
    exact_mod_cast whole
  · have whole : l ≤ 2 ^ e := by omega
    exact_mod_cast whole

/-- A number of units in milliseconds is bounded. -/
theorem unitsToMs_bounds {limit rxform r : Float64} {e f : Nat} {l x : Int} (idx : Nat)
    (small : SmallUnit limit rxform e f l x) (between : Between r (-2 ^ e) (2 ^ e)) :
    -2 ^ 61 ≤ DateTime.unitsToMs idx r rxform ∧ DateTime.unitsToMs idx r rxform ≤ 2 ^ 61 := by
  have few := small.few
  have power (k : Nat) : (2 : ℚ) ^ (k + 1) = 2 * 2 ^ k := pow_succ' 2 k
  have positive (k : Nat) : (0 : ℚ) < 2 ^ k := by positivity
  have part : Between (if idx = 4 ∨ idx = 5 then r - r.trunc else r) (-2 ^ (e + 1)) (2 ^ (e + 1)) := by
    split
    · exact between_sub_trunc (by omega) between
    · refine between.weaken ?_ ?_
      · rw [power]
        linarith [positive e]
      · rw [power]
        linarith [positive e]
  have length : HasValue rxform x := by
    rw [small.length_eq]
    refine HasValue.ofInt_exact ?_
    have most : (2 : Int) ^ f ≤ 2 ^ 49 := pow_le_pow_right₀ (by decide) (by omega)
    have nonneg := small.length_nonneg
    have le := small.length_le
    omega
  have nonneg_ : (0 : ℚ) ≤ x := by exact_mod_cast small.length_nonneg
  have le_ : (x : ℚ) ≤ 2 ^ f := by exact_mod_cast small.length_le
  have ten : (2 : ℚ) ^ (e + 11) = 1024 * 2 ^ (e + 1) := by ring
  have millis : Between ((if idx = 4 ∨ idx = 5 then r - r.trunc else r) * 1000.0) (-2 ^ (e + 11))
      (2 ^ (e + 11)) := by
    refine part.mul DateTime.value_1000 (by norm_num) (Bound.pow (by omega)).neg (Bound.pow (by omega)) ?_ ?_
    · rw [ten]
      linarith [positive (e + 1)]
    · rw [ten]
      linarith [positive (e + 1)]
  have product : (2 : ℚ) ^ (e + 11) * x ≤ 2 ^ 60 := by
    calc (2 : ℚ) ^ (e + 11) * x ≤ 2 ^ (e + 11) * 2 ^ f :=
          mul_le_mul_of_nonneg_left le_ (positive _).le
      _ = 2 ^ (e + 11 + f) := (pow_add _ _ _).symm
      _ ≤ 2 ^ 60 := pow_le_pow_right₀ (by norm_num) (by omega)
  have scaled : Between ((if idx = 4 ∨ idx = 5 then r - r.trunc else r) * 1000.0 * rxform) (-2 ^ 60)
      (2 ^ 60) :=
    millis.mul length nonneg_ (Bound.pow (by decide)).neg (Bound.pow (by decide))
      (by rw [neg_mul]; linarith) product
  have rounded : Between ((if idx = 4 ∨ idx = 5 then r - r.trunc else r) * 1000.0 * rxform +
      if r.lt 0.0 then -0.5 else 0.5) (-2 ^ 61) (2 ^ 61) := by
    refine scaled.add (between_rounder r) (Bound.pow (by decide)).neg (Bound.pow (by decide)) ?_ ?_
    · norm_num
    · norm_num
  refine asI64_between ?_ (by decide) (by decide)
  norm_num at rounded ⊢
  exact rounded

/-! ## Reading -/

/-- A time of day to add. -/
theorem readOffset_ok (z : Text) :
    ∃ read, readOffset z = .ok read ∧ ∀ modifier, read = some modifier → modifier.Few := by
  have none_ : ∀ modifier, (none : Option Modifier) = some modifier → modifier.Few := nofun
  obtain ⟨time, run, written⟩ := parseHhMmSs_ok (z.dropWhile fun c => c == '+' || c == '-')
  unfold readOffset
  rw [run, Outcome.ok_bind]
  cases time with
  | none => exact ⟨none, rfl, none_⟩
  | some parts =>
      obtain ⟨h, min, s, rest⟩ := parts
      obtain ⟨ms, sum, low, high⟩ := DateTime.timeToMs_ok (written h min s rest rfl).timed
      dsimp only
      split
      · exact ⟨none, rfl, none_⟩
      · rw [sum, Outcome.ok_bind]
        refine ⟨some (.offset (if ['-'].isPrefixOf z then -ms else ms)), ?_, ?_⟩
        · rw [i64_of_bounds (by split <;> omega) (by split <;> omega)]
          rfl
        · rintro modifier same
          obtain rfl := Option.some.inj same
          rw [Modifier.Few]
          split <;> omega

/-- The `s` of a plural is cut off. -/
theorem sliceTo_plural {unit : Text} (plural : ['s'].isSuffixOf unit = true) :
    ∃ front, (Text.sliceTo unit (Text.byteLength unit - 1) : Outcome Empty Text) = .ok front := by
  obtain ⟨front, rfl⟩ := List.isSuffixOf_iff_suffix.mp plural
  have one : Text.byteLength ['s'] = 1 := by decide
  refine ⟨front, ?_⟩
  rw [Text.byteLength_append, one, Nat.add_sub_cancel]
  exact Text.sliceTo_append front ['s']

/-- What comes behind both branches. -/
theorem ite_bind {α β : Type} {c : Prop} [Decidable c] (a b : Outcome Empty α)
    (next : α → Outcome Empty β) :
    (if c then a >>= next else b >>= next) = (if c then a else b) >>= next := by
  split <;> rfl

/-- A number and a unit. -/
theorem readUnits_ok (numStr tail : Text) :
    ∃ read, readUnits numStr tail = .ok read ∧ ∀ modifier, read = some modifier → modifier.Few := by
  have none_ : ∀ modifier, (none : Option Modifier) = some modifier → modifier.Few := nofun
  unfold readUnits
  cases Float64.parse numStr with
  | none => exact ⟨none, rfl, none_⟩
  | some r =>
      dsimp only
      split
      · exact ⟨none, rfl, none_⟩
      · obtain ⟨unit, cut⟩ : ∃ unit, (if 3 ≤ Text.byteLength (Text.trim tail) ∧
            ['s'].isSuffixOf (Text.trim tail) = true then
              Text.sliceTo (Text.trim tail) (Text.byteLength (Text.trim tail) - 1)
            else pure (Text.trim tail) : Outcome Empty Text) = .ok unit := by
          split
          · rename_i plural
            exact sliceTo_plural plural.2
          · exact ⟨_, rfl⟩
        rw [ite_bind, cut, Outcome.ok_bind]
        cases found : xform.findIdx? fun entry => entry.1 = unit with
        | none => exact ⟨none, rfl, none_⟩
        | some idx =>
            obtain ⟨inside, _⟩ := List.findIdx?_eq_some_iff_getElem.mp found
            have entry : xform[idx]? = some xform[idx] := List.getElem?_eq_getElem inside
            obtain ⟨e, f, l, x, small, few⟩ := xform_small entry
            dsimp only
            rw [Outcome.orPanic_eq_ok.mpr entry, Outcome.ok_bind]
            split
            · exact ⟨none, rfl, none_⟩
            · rename_i _ inRange
              have between := small.between (by simpa using inRange)
              refine ⟨_, rfl, ?_⟩
              rintro modifier same
              obtain rfl := Option.some.inj same
              refine ⟨fun months => ?_, fun years => ?_,
                unitsToMs_bounds idx small (small.between_pow between)⟩
              · rw [few.1 months] at between
                exact asI64_between between (by decide) (by decide)
              · rw [few.2 years] at between
                exact asI64_between between (by decide) (by decide)

/-- The number is cut off at a character. -/
theorem splitAt_number (z : Text) :
    ∃ numStr tail, (Text.splitAt z ((((Text.charIndices z 0).find? fun (i, c) =>
      0 < i && !goesOn c).map Prod.fst).getD (Text.byteLength z)) : Outcome Empty _) =
        .ok (numStr, tail) := by
  cases cut : (Text.charIndices z 0).find? fun (i, c) => 0 < i && !goesOn c with
  | none =>
      have whole := @Text.splitAt_append Empty z []
      rw [List.append_nil] at whole
      exact ⟨z, [], whole⟩
  | some found =>
      obtain ⟨at_, c⟩ := found
      obtain ⟨front, behind, rfl, rfl, _⟩ := Text.find_charIndices cut
      refine ⟨front, c :: behind, ?_⟩
      rw [Option.map_some, Option.getD_some, Nat.zero_add]
      exact Text.splitAt_append front (c :: behind)

theorem readNumericModifier_ok (z : Text) :
    ∃ read, readNumericModifier z = .ok read ∧
      ∀ modifier, read = some modifier → modifier.Few := by
  obtain ⟨numStr, tail, cut⟩ := splitAt_number z
  unfold readNumericModifier
  dsimp only
  rw [cut, Outcome.ok_bind]
  dsimp only
  split
  · exact readOffset_ok z
  · exact readUnits_ok numStr tail

/-- A day of the week. -/
theorem weekday_few {rf : Float64} (held : within 0.0 7.0 rf = true) :
    0 ≤ asI64 rf ∧ asI64 rf ≤ 7 := by
  have seven : HasValue 7.0 7 :=
    literal_exact (by decide) (by decide) (by decide) (@Bound.ofInt 7 (by decide)) (by norm_num)
  obtain ⟨a, value, low, high⟩ := within_finite hasValue_zero seven held
  have between : Between rf (0 : Int) (7 : Int) :=
    ⟨a, value, by exact_mod_cast low, by exact_mod_cast high.le⟩
  exact asI64_between between (by decide) (by decide)

/-- The bytes of a text that is not empty, in lower case. -/
theorem toUtf8_toAsciiLowercase_ne {z : Text} (given : z ≠ []) :
    Text.toUtf8 (Text.toAsciiLowercase z) ≠ [] := by
  intro none
  have length : Text.byteLength (Text.toAsciiLowercase z) = 0 := congrArg List.length none
  obtain ⟨c, rest, rfl⟩ := List.exists_cons_of_ne_nil given
  rw [Text.toAsciiLowercase, List.map_cons, Text.byteLength_cons] at length
  have positive := (Text.asciiLower c).utf8Size_pos
  omega

/-- **A modifier that is not blank** is read. -/
theorem readModifier_ok {z : Text} (given : Text.trim z ≠ []) :
    ∃ read, readModifier z = .ok read ∧ ∀ modifier, read = some modifier → modifier.Few := by
  have none_ : ∀ modifier, (none : Option Modifier) = some modifier → modifier.Few := nofun
  have some_ {held : Modifier} (few : held.Few) : ∀ modifier, some held = some modifier → modifier.Few :=
    fun modifier same => Option.some.inj same ▸ few
  unfold readModifier
  dsimp only
  split
  · exact ⟨_, rfl, some_ trivial⟩
  · split
    · exact ⟨_, rfl, some_ trivial⟩
    · split
      · exact ⟨_, rfl, some_ trivial⟩
      · split
        · exact ⟨_, rfl, some_ trivial⟩
        · cases Text.stripPrefix "weekday ".toList (Text.toAsciiLowercase (Text.trim z)) with
          | some rest =>
              dsimp only
              cases Float64.parse (Text.trim rest) with
              | none => exact ⟨none, rfl, none_⟩
              | some rf =>
                  dsimp only
                  split
                  · rename_i day
                    rw [Bool.and_eq_true] at day
                    exact ⟨_, rfl, some_ (weekday_few day.1)⟩
                  · exact ⟨none, rfl, none_⟩
          | none =>
              dsimp only
              cases Text.stripPrefix "start of ".toList (Text.toAsciiLowercase (Text.trim z)) with
              | some unit => exact ⟨_, rfl, some_ trivial⟩
              | none =>
                  obtain ⟨first, rest, bytes⟩ :=
                    List.exists_cons_of_ne_nil (toUtf8_toAsciiLowercase_ne given)
                  dsimp only
                  rw [bytes, byteAt_zero, Outcome.ok_bind]
                  split
                  · exact readNumericModifier_ok (Text.trim z)
                  · exact ⟨none, rfl, none_⟩

/-- The first byte of a blank modifier is not there. -/
theorem readModifier_blank {z : Text} (blank : Text.trim z = []) (read : Option Modifier) :
    readModifier z ≠ .ok read := by
  intro run
  unfold readModifier at run
  rw [blank] at run
  exact nomatch run

theorem readModifier_iff {z : Text} : (∃ read, readModifier z = .ok read) ↔ Text.trim z ≠ [] := by
  constructor
  · rintro ⟨read, run⟩ blank
    exact readModifier_blank blank read run
  · intro given
    obtain ⟨read, run, _⟩ := readModifier_ok given
    exact ⟨read, run⟩

end Squrust.Sql
