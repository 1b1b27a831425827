import Squrust.Sql.IntegerArithmetic

/-!
# SUM over integers

SUM over integers should be their exact total, where it is in range. The accumulator is
a double: every input is rounded to 53 digits, and so is the sum after each addition
(`runningSum`). With DISTINCT an input is left out when an earlier one is the same
double (`countedInputs`).

So the result is the total exactly if there are inputs, and these roundings bring the
sum back to it (`sum_total_iff`). Up to 2^53 there are none (`SumsRight.of_small`).
-/

set_option autoImplicit false

namespace Squrust.Sql

open Squrust.Foundation

open Float64 (IsWhole finiteBound)

/-! ## What SUM is and should be -/

/-- The sum, rounded after each addition. -/
def runningSum (inputs : List Int64) : Int :=
  inputs.foldl (fun sum i => nearest (sum + nearest i.toInt)) 0

/-- The inputs that are added: with DISTINCT those that are not the same double as one added
before. -/
def countedFrom (distinct : Bool) (seen : List Int64) : List Int64 → List Int64
  | [] => []
  | i :: rest =>
      if distinct && seen.any fun d => nearest d.toInt = nearest i.toInt then
        countedFrom distinct seen rest
      else i :: countedFrom distinct (seen ++ [i]) rest

def countedInputs (distinct : Bool) (inputs : List Int64) : List Int64 := countedFrom distinct [] inputs

/-- The exact total of the inputs, or of the different ones. -/
def exactTotal (distinct : Bool) (inputs : List Int64) : Int :=
  ((if distinct then inputs.dedup else inputs).map Int64.toInt).sum

/-- There are inputs, and rounding brings their sum to the exact total. -/
def SumsRight (distinct : Bool) (inputs : List Int64) : Prop :=
  inputs ≠ [] ∧
    (Int64.ofIntClamp (runningSum (countedInputs distinct inputs))).toInt = exactTotal distinct inputs

/-- `SELECT SUM(arg)` -/
def sumExprs (arg : Compute) (distinct : Bool) (baseLen : Nat) : AggExec.Exprs where
  groupBy := []
  aggs := [⟨.sum, some arg, distinct, none⟩]
  output := [.agg 0]
  baseLen := baseLen
  having := none

/-! ## The accumulator -/

/-- The aggregate of a SUM. -/
abbrev sumAgg (arg : Compute) (distinct : Bool) : AggExpr Compute := ⟨.sum, some arg, distinct, none⟩

/-- The accumulator holds this sum, and has these inputs in it. -/
structure Sums (distinct : Bool) (acc : Acc) (sum : Int) (seen : List Int64) : Prop where
  whole : IsWhole acc.sum sum
  bounded : sum.natAbs ≤ 2 ^ 118
  held : acc.distinct = if distinct then seen.map Value.integer else []
  any : acc.sumSeen = !seen.isEmpty

/-- From 2^118 on, adding an integer changes nothing. -/
theorem natAbs_nearest_add_le {sum : Int} (bounded : sum.natAbs ≤ 2 ^ 118) (i : Int64) :
    (nearest (sum + nearest i.toInt)).natAbs ≤ 2 ^ 118 := by
  have top : nearestNat (2 ^ 118 + 2 ^ 63) = 2 ^ 118 := by decide +kernel
  have input := nearest_natAbs_le (natAbs_toInt_le i)
  rw [natAbs_nearest, ← top]
  exact nearestNat_mono (by omega)

/-- Two integers are equal values if they are the same double. -/
theorem integer_eq_integer (d i : Int64) :
    (Value.integer d).eq (.integer i) = decide (nearest d.toInt = nearest i.toInt) := by
  have order : (Value.integer d).compare (.integer i) = some (compare (nearest d.toInt) (nearest i.toInt)) :=
    (isWhole_asDouble d).partialCmp (isWhole_asDouble i)
  rw [Value.eq, order, Bool.eq_iff_iff, beq_iff_eq, Option.some.injEq, compare_eq_iff_eq,
    decide_eq_true_iff]

namespace Sums

variable {distinct : Bool} {acc : Acc} {sum : Int} {seen : List Int64} {arg : Compute}

theorem new : Sums distinct .new 0 [] where
  whole := Float64.isWhole_zero
  bounded := by decide
  held := by cases distinct <;> rfl
  any := rfl

theorem update_eq (acc : Acc) (i : Int64) :
    acc.update (sumAgg arg distinct) (.integer i) none =
      if distinct then
        if acc.distinct.any fun d => d.eq (.integer i) then acc
        else { acc with distinct := acc.distinct ++ [Value.integer i] }.take .sum (.integer i) none
      else acc.take .sum (.integer i) none := rfl

/-- **Step.** An input that is left out. -/
theorem update_same (sums : Sums distinct acc sum seen) {i : Int64}
    (same : (distinct && seen.any fun d => nearest d.toInt = nearest i.toInt) = true) :
    acc.update (sumAgg arg distinct) (.integer i) none = acc := by
  obtain ⟨rfl, before⟩ := Bool.and_eq_true_iff.mp same
  have found : (acc.distinct.any fun d => d.eq (.integer i)) = true := by
    rw [sums.held, if_pos rfl, List.any_map, ← before]
    congr 1
    funext d
    exact integer_eq_integer d i
  rw [update_eq, if_pos rfl, if_pos found]

/-- **Step.** An input that is added. -/
theorem update_new (sums : Sums distinct acc sum seen) {i : Int64}
    (new : (distinct && seen.any fun d => nearest d.toInt = nearest i.toInt) = false) :
    Sums distinct (acc.update (sumAgg arg distinct) (.integer i) none) (nearest (sum + nearest i.toInt))
      (seen ++ [i]) := by
  have input := nearest_natAbs_le (natAbs_toInt_le i)
  have low := sums.bounded
  have whole : IsWhole (acc.sum + asDouble i) (nearest (sum + nearest i.toInt)) :=
    sums.whole.add (isWhole_asDouble i) (Float64.lt_finiteBound (by omega))
  have bounded := natAbs_nearest_add_le low i
  have some_ : (!(seen ++ [i]).isEmpty) = true := by simp
  cases distinct with
  | false => exact ⟨whole, bounded, sums.held, some_.symm⟩
  | true =>
      have absent : (acc.distinct.any fun d => d.eq (.integer i)) = false := by
        rw [sums.held, if_pos rfl, List.any_map, ← new, Bool.true_and]
        congr 1
        funext d
        exact integer_eq_integer d i
      have notFound : ¬ (acc.distinct.any fun d => d.eq (.integer i)) = true := by
        rw [absent]
        decide
      rw [update_eq, if_pos rfl, if_neg notFound]
      refine ⟨whole, bounded, ?_, some_.symm⟩
      change acc.distinct ++ [Value.integer i] = _
      rw [sums.held, if_pos rfl, if_pos rfl, List.map_append]
      rfl

/-- **Run.** All inputs, one after the other. -/
theorem updateAll (sums : Sums distinct acc sum seen) (inputs : List Int64) :
    ∃ seen', Sums distinct
        (inputs.foldl (fun acc i => acc.update (sumAgg arg distinct) (.integer i) none) acc)
        ((countedFrom distinct seen inputs).foldl (fun sum i => nearest (sum + nearest i.toInt)) sum) seen' ∧
      (seen' = [] ↔ seen = [] ∧ inputs = []) := by
  induction inputs generalizing acc sum seen with
  | nil => exact ⟨seen, sums, by simp⟩
  | cons i rest ih =>
      rw [List.foldl_cons, countedFrom]
      cases same : distinct && seen.any fun d => nearest d.toInt = nearest i.toInt with
      | true =>
          rw [sums.update_same same, if_pos rfl]
          obtain ⟨seen', run, empty⟩ := ih sums
          have before : seen ≠ [] := by
            rintro rfl
            simp at same
          exact ⟨seen', run, by simp [empty, before]⟩
      | false =>
          rw [if_neg (by decide), List.foldl_cons]
          obtain ⟨seen', run, empty⟩ := ih (sums.update_new same)
          exact ⟨seen', run, by simp [empty]⟩

/-- What is made of the sum. -/
theorem finalize (sums : Sums distinct acc sum seen) :
    acc.finalize .sum = if seen = [] then .null else .integer (Int64.ofIntClamp sum) := by
  have low := sums.bounded
  have whole := sums.whole.fract_isZero (Float64.lt_finiteBound (by omega))
  rw [Acc.finalize, sums.any, whole, sums.whole.toInt64]
  cases seen <;> rfl

end Sums

/-! ## The executor -/

namespace AggExec

variable {arg : Compute} {distinct : Bool} {baseLen : Nat}

theorem updateAccs_sum (acc : Acc) {row : Row} {i : Int64} (evaluated : arg row = .ok (.integer i)) :
    updateAccs row [sumAgg arg distinct] [acc] =
      .ok [acc.update (sumAgg arg distinct) (.integer i) none] := by
  rw [updateAccs]
  simp only [evaluated]
  rfl

/-- A row of the group. -/
theorem addRow_sum (acc : Acc) (rep : Row) (hasRep : Bool) {row : Row} {i : Int64}
    (evaluated : arg row = .ok (.integer i)) :
    addRow (sumExprs arg distinct baseLen) [⟨[], [acc], rep, hasRep⟩] row =
      .ok [⟨[], [acc.update (sumAgg arg distinct) (.integer i) none], rep, hasRep⟩] := by
  change (updateAccs row [sumAgg arg distinct] [acc] >>= fun accs =>
    pure [(⟨[], accs, rep, hasRep⟩ : Group)]) = _
  rw [updateAccs_sum acc evaluated]
  rfl

/-- The first row. -/
theorem addRow_first {row : Row} {i : Int64} (evaluated : arg row = .ok (.integer i)) :
    addRow (sumExprs arg distinct baseLen) [] row =
      .ok [⟨[], [Acc.new.update (sumAgg arg distinct) (.integer i) none], row,
        row.values ≠ [] || row.rowId ≠ 0⟩] := by
  change (updateAccs row [sumAgg arg distinct] [Acc.new] >>= fun accs =>
    pure [(⟨[], accs, row, _⟩ : Group)]) = _
  rw [updateAccs_sum Acc.new evaluated]
  rfl

/-- All rows are in one group. -/
theorem foldlM_addRow {rows : List Row} {inputs : List Int64}
    (evaluated : List.Forall₂ (fun row i => arg row = .ok (.integer i)) rows inputs) (acc : Acc)
    (rep : Row) (hasRep : Bool) :
    rows.foldlM (addRow (sumExprs arg distinct baseLen)) [⟨[], [acc], rep, hasRep⟩] =
      .ok [⟨[], [inputs.foldl (fun acc i => acc.update (sumAgg arg distinct) (.integer i) none) acc], rep,
        hasRep⟩] := by
  induction evaluated generalizing acc with
  | nil => rfl
  | cons first _ ih =>
      rw [List.foldlM_cons, addRow_sum acc rep hasRep first, Outcome.ok_bind, ih, List.foldl_cons]

/-- The row of the group. -/
theorem mapM_outputRow (acc : Acc) (rep : Row) (hasRep : Bool) :
    [(⟨[], [acc], rep, hasRep⟩ : Group)].mapM (outputRow (sumExprs arg distinct baseLen)) =
      .ok [some ⟨0, [acc.finalize .sum]⟩] := rfl

/-- The one row of a SUM. -/
theorem aggregate_sum {rows : List Row} {inputs : List Int64}
    (evaluated : List.Forall₂ (fun row i => arg row = .ok (.integer i)) rows inputs) :
    aggregate (sumExprs arg distinct baseLen) rows =
      .ok [⟨0, [(inputs.foldl (fun acc i => acc.update (sumAgg arg distinct) (.integer i) none)
        Acc.new).finalize .sum]⟩] := by
  have grouped : ∃ rep hasRep, groupRows (sumExprs arg distinct baseLen) rows =
      .ok [⟨[], [inputs.foldl (fun acc i => acc.update (sumAgg arg distinct) (.integer i) none) Acc.new],
        rep, hasRep⟩] := by
    cases evaluated with
    | nil => exact ⟨⟨0, []⟩, _, rfl⟩
    | @cons row i rows inputs first rest =>
        refine ⟨row, row.values ≠ [] || row.rowId ≠ 0, ?_⟩
        rw [groupRows, List.foldlM_cons, addRow_first first, Outcome.ok_bind, foldlM_addRow rest,
          Outcome.ok_bind, if_neg (by simp), sortBy, List.mergeSort_singleton]
        rfl
  obtain ⟨rep, hasRep, run⟩ := grouped
  rw [aggregate, run, Outcome.ok_bind, mapM_outputRow]
  rfl

end AggExec

/-! ## The total -/

/-- What `SELECT SUM(arg)` returns. -/
theorem sum_eq {arg : Compute} (distinct : Bool) (baseLen : Nat) {rows : List Row} {inputs : List Int64}
    (evaluated : List.Forall₂ (fun row i => arg row = .ok (.integer i)) rows inputs) :
    AggExec.aggregate (sumExprs arg distinct baseLen) rows =
      .ok [⟨0, [if inputs = [] then .null
        else .integer (Int64.ofIntClamp (runningSum (countedInputs distinct inputs)))]⟩] := by
  obtain ⟨seen, sums, empty⟩ := (@Sums.new distinct).updateAll inputs
  rw [AggExec.aggregate_sum evaluated, sums.finalize]
  simp only [empty, true_and]
  rfl

/-- One order of the inputs. -/
theorem sum_order_iff {arg : Compute} (distinct : Bool) (baseLen : Nat) {rows : List Row}
    {inputs : List Int64}
    (evaluated : List.Forall₂ (fun row i => arg row = .ok (.integer i)) rows inputs)
    (within : InRange (exactTotal distinct inputs)) :
    AggExec.aggregate (sumExprs arg distinct baseLen) rows =
        .ok [⟨0, [.integer (Int64.ofInt (exactTotal distinct inputs))]⟩] ↔
      SumsRight distinct inputs := by
  rw [sum_eq distinct baseLen evaluated, SumsRight, ← ofInt_eq_iff within]
  by_cases none : inputs = []
  · subst none
    simp
  · simp [none]

/-- Different inputs have one total in every order. -/
theorem exactTotal_perm {distinct : Bool} {inputs others : List Int64} (perm : inputs.Perm others) :
    exactTotal distinct inputs = exactTotal distinct others := by
  unfold exactTotal
  cases distinct with
  | false => exact (perm.map Int64.toInt).sum_eq
  | true => exact (perm.dedup.map Int64.toInt).sum_eq

/-- Rows for some inputs. -/
def rowsOf (inputs : List Int64) : List Row := inputs.map fun i => ⟨i, []⟩

theorem rowsOf_evaluated (inputs : List Int64) :
    List.Forall₂ (fun (row : Row) i => (Except.ok (.integer row.rowId) : Outcome SqlError Value) =
      .ok (.integer i)) (rowsOf inputs) inputs := by
  induction inputs with
  | nil => exact .nil
  | cons i rest ih => exact .cons rfl ih

/-- **SUM is the exact total in every order of the rows** exactly if there are inputs, and in every
order their sum is rounded to it. -/
theorem sum_total_iff (distinct : Bool) (inputs : List Int64)
    (within : InRange (exactTotal distinct inputs)) :
    (∀ others, inputs.Perm others → ∀ (arg : Compute) (baseLen : Nat) (rows : List Row),
      List.Forall₂ (fun row i => arg row = .ok (.integer i)) rows others →
      AggExec.aggregate (sumExprs arg distinct baseLen) rows =
        .ok [⟨0, [.integer (Int64.ofInt (exactTotal distinct inputs))]⟩]) ↔
    ∀ others, inputs.Perm others → SumsRight distinct others := by
  constructor
  · intro right others perm
    rw [exactTotal_perm perm] at right within
    exact (sum_order_iff distinct 0 (rowsOf_evaluated others) within).mp
      (right others perm _ 0 _ (rowsOf_evaluated others))
  · intro right others perm arg baseLen rows evaluated
    rw [exactTotal_perm perm] at within ⊢
    exact (sum_order_iff distinct baseLen evaluated within).mpr (right others perm)

/-! ## Small inputs -/

/-- Nothing is rounded on the way. -/
theorem foldl_nearest {inputs : List Int64} {sum : Int}
    (small : sum.natAbs + (inputs.map fun i => i.toInt.natAbs).sum ≤ 2 ^ 53) :
    inputs.foldl (fun sum i => nearest (sum + nearest i.toInt)) sum =
      sum + (inputs.map Int64.toInt).sum := by
  induction inputs generalizing sum with
  | nil => simp
  | cons i rest ih =>
      rw [List.map_cons, List.sum_cons] at small
      rw [List.foldl_cons, nearest_of_le (by omega : i.toInt.natAbs ≤ 2 ^ 53),
        nearest_of_le (by omega : (sum + i.toInt).natAbs ≤ 2 ^ 53), ih (by omega), List.map_cons,
        List.sum_cons, add_assoc]

theorem countedFrom_false (seen inputs : List Int64) : countedFrom false seen inputs = inputs := by
  induction inputs generalizing seen with
  | nil => rfl
  | cons i rest ih => rw [countedFrom, Bool.false_and, if_neg (by decide), ih]

/-- Doubles that are not rounded are told apart. -/
theorem mem_countedFrom {seen inputs : List Int64}
    (small : ∀ i ∈ seen ++ inputs, i.toInt.natAbs ≤ 2 ^ 53) :
    (countedFrom true seen inputs).Nodup ∧
      ∀ i, i ∈ countedFrom true seen inputs ↔ i ∈ inputs ∧ i ∉ seen := by
  induction inputs generalizing seen with
  | nil => simp [countedFrom]
  | cons i rest ih =>
      have known : (seen.any fun d => nearest d.toInt = nearest i.toInt) = true ↔ i ∈ seen := by
        rw [List.any_eq_true]
        constructor
        · rintro ⟨d, member, same⟩
          rw [decide_eq_true_iff, nearest_of_le (small d (by simp [member])),
            nearest_of_le (small i (by simp))] at same
          rwa [← Int64.toInt_inj.mp same]
        · exact fun member => ⟨i, member, by simp⟩
      rw [countedFrom, Bool.true_and]
      by_cases before : i ∈ seen
      · obtain ⟨nodup, members⟩ := @ih seen fun j within => small j (by simp at within ⊢; tauto)
        rw [if_pos (known.mpr before)]
        refine ⟨nodup, fun j => ?_⟩
        rw [members, List.mem_cons]
        constructor
        · rintro ⟨later, fresh⟩
          exact ⟨Or.inr later, fresh⟩
        · rintro ⟨rfl | later, fresh⟩
          · exact absurd before fresh
          · exact ⟨later, fresh⟩
      · obtain ⟨nodup, members⟩ := @ih (seen ++ [i]) fun j within =>
          small j (by simp at within ⊢; tauto)
        rw [if_neg fun found => before (known.mp found)]
        refine ⟨List.nodup_cons.mpr ⟨fun again => ?_, nodup⟩, fun j => ?_⟩
        · exact ((members i).mp again).2 (by simp)
        · rw [List.mem_cons, members, List.mem_cons, List.mem_append, List.mem_singleton]
          constructor
          · rintro (rfl | ⟨later, fresh⟩)
            · exact ⟨Or.inl rfl, before⟩
            · exact ⟨Or.inr later, fun member => fresh (Or.inl member)⟩
          · rintro ⟨rfl | later, fresh⟩
            · exact Or.inl rfl
            · by_cases same : j = i
              · exact Or.inl same
              · exact Or.inr ⟨later, fun member => member.elim fresh same⟩

theorem countedInputs_perm {distinct : Bool} {inputs : List Int64}
    (small : ∀ i ∈ inputs, i.toInt.natAbs ≤ 2 ^ 53) :
    (countedInputs distinct inputs).Perm (if distinct then inputs.dedup else inputs) := by
  cases distinct with
  | false =>
      rw [countedInputs, countedFrom_false]
      exact List.Perm.refl _
  | true =>
      obtain ⟨nodup, members⟩ := @mem_countedFrom [] inputs small
      change (countedFrom true [] inputs).Perm inputs.dedup
      rw [List.perm_ext_iff_of_nodup nodup (List.nodup_dedup _)]
      intro i
      rw [members, List.mem_dedup]
      simp

theorem natAbs_sum_le (inputs : List Int64) :
    (inputs.map Int64.toInt).sum.natAbs ≤ (inputs.map fun i => i.toInt.natAbs).sum := by
  induction inputs with
  | nil => simp
  | cons i rest ih =>
      simp only [List.map_cons, List.sum_cons]
      omega

/-- Up to 2^53 in all, the sum is exact in every order. -/
theorem SumsRight.of_small {distinct : Bool} {inputs : List Int64} (some_ : inputs ≠ [])
    (small : (inputs.map fun i => i.toInt.natAbs).sum ≤ 2 ^ 53) : SumsRight distinct inputs := by
  have each : ∀ i ∈ inputs, i.toInt.natAbs ≤ 2 ^ 53 := fun i member =>
    (List.single_le_sum (by simp) _ (List.mem_map_of_mem (f := fun i : Int64 => i.toInt.natAbs) member)).trans
      small
  have perm := @countedInputs_perm distinct inputs each
  have fewer : ((countedInputs distinct inputs).map fun i => i.toInt.natAbs).sum ≤ 2 ^ 53 := by
    rw [(perm.map _).sum_eq]
    cases distinct with
    | false => exact small
    | true => exact ((List.dedup_sublist inputs).map _).sum_le_sum (by simp) |>.trans small
  have total : exactTotal distinct inputs = ((countedInputs distinct inputs).map Int64.toInt).sum :=
    ((perm.map Int64.toInt).sum_eq).symm
  have bounded := natAbs_sum_le (countedInputs distinct inputs)
  have sum : runningSum (countedInputs distinct inputs) = exactTotal distinct inputs := by
    rw [runningSum, foldl_nearest (by simpa using fewer), zero_add, total]
  refine ⟨some_, ?_⟩
  rw [sum, Int64.toInt_ofIntClamp]
  · rw [total, Int64.toInt_minValue]
    omega
  · rw [total, Int64.toInt_maxValue]
    omega

/-- One, two and two are five, and three if they are different, in every order. -/
theorem sum_total_iff_five :
    AggExec.aggregate (sumExprs (fun row => .ok (.integer row.rowId)) false 0) (rowsOf [2, 1, 2]) =
      .ok [⟨0, [.integer 5]⟩] ∧
    AggExec.aggregate (sumExprs (fun row => .ok (.integer row.rowId)) true 0) (rowsOf [2, 1, 2]) =
      .ok [⟨0, [.integer 3]⟩] := by
  have small : ∀ others, [1, 2, 2].Perm others →
      (others.map fun i : Int64 => i.toInt.natAbs).sum ≤ 2 ^ 53 := fun others perm => by
    rw [← (perm.map fun i : Int64 => i.toInt.natAbs).sum_eq]
    decide
  have some_ : ∀ others, ([1, 2, 2] : List Int64).Perm others → others ≠ [] := fun others perm none => by
    simp [none] at perm
  have swapped : ([1, 2, 2] : List Int64).Perm [2, 1, 2] := by decide
  exact ⟨(sum_total_iff false [1, 2, 2] (by unfold InRange; decide)).mpr
      (fun others perm => .of_small (some_ others perm) (small others perm)) _ swapped _ 0 _
      (rowsOf_evaluated _),
    (sum_total_iff true [1, 2, 2] (by unfold InRange; decide)).mpr
      (fun others perm => .of_small (some_ others perm) (small others perm)) _ swapped _ 0 _
      (rowsOf_evaluated _)⟩

/-- The same three rows have two sums, two different integers count once, and no rows have no sum. -/
theorem sum_order_matters :
    AggExec.aggregate (sumExprs (fun row => .ok (.integer row.rowId)) false 0)
        (rowsOf [9007199254740992, 1, 1]) = .ok [⟨0, [.integer 9007199254740992]⟩] ∧
    AggExec.aggregate (sumExprs (fun row => .ok (.integer row.rowId)) false 0)
        (rowsOf [1, 1, 9007199254740992]) = .ok [⟨0, [.integer 9007199254740994]⟩] ∧
    AggExec.aggregate (sumExprs (fun row => .ok (.integer row.rowId)) true 0)
        (rowsOf [9007199254740992, 9007199254740993]) = .ok [⟨0, [.integer 9007199254740992]⟩] ∧
    AggExec.aggregate (sumExprs (fun row => .ok (.integer row.rowId)) false 0) (rowsOf []) =
      .ok [⟨0, [.null]⟩] ∧
    exactTotal false [9007199254740992, 1, 1] = 9007199254740994 := by
  decide +kernel

end Squrust.Sql
