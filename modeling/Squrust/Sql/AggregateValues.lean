import Squrust.Sql.SetOperations

/-!
# What aggregates compute

The value of an aggregate on the rows of a group, apart from how it is accumulated
(`aggregateOf`). NULL arguments are left out, and with DISTINCT all but the first of
equal arguments. An accumulator that takes the rows one after another comes to that
value (`finalize_run`).
-/

set_option autoImplicit false

namespace Squrust.Sql

open Squrust.Foundation

/-- The texts of the arguments, with the separator of each but the first before it. -/
def concatenation : List (Text × Value) → Text
  | [] => []
  | (_, v) :: rest => v.toDisplayString ++ rest.flatMap fun (sep, w) => sep ++ w.toDisplayString

/-- The arguments that are given, along with their separators. -/
def givenArguments (distinct : Bool) (arguments : List (Text × Value)) : List (Text × Value) :=
  let given := arguments.filter fun entry => !entry.2.isNull
  if distinct then firstOccurrences Prod.snd given else given

/-- The value of an aggregate with these arguments, one for each row of the group. -/
def aggregateOf (func : AggFunc) (distinct : Bool) (arguments : List (Text × Value)) : Value :=
  let given := givenArguments distinct arguments
  let numbers := given.filterMap fun entry => entry.2.asF64
  let total := numbers.foldl (· + ·) 0
  match func with
  | .countStar => .integer (Int64.ofNat arguments.length)
  | .count => .integer (Int64.ofNat given.length)
  | .sum =>
      if numbers = [] then .null
      else if total.fract.isZero then .integer total.toInt64 else .real total
  | .avg => if numbers = [] then .null else .real (total / Float64.ofInt numbers.length)
  | .min => ((sortBy Value.sortOrder (given.map Prod.snd)).head?).getD .null
  | .max => ((sortBy (fun a b => Value.sortOrder b a) (given.map Prod.snd)).head?).getD .null
  | .groupConcat => if given = [] then .null else .text (concatenation given)

namespace Acc

variable {E : Type}

/-- With these values as those that were seen, which only `update` asks for. -/
def withSeen (self : Acc) (seen : List Value) : Acc := { self with distinct := seen }

@[simp] theorem finalize_withSeen (self : Acc) (seen : List Value) (func : AggFunc) :
    (self.withSeen seen).finalize func = self.finalize func := by
  cases func <;> rfl

theorem take_withSeen (self : Acc) (seen : List Value) (func : AggFunc) (v : Value)
    (sep : Option Text) :
    (self.withSeen seen).take func v sep = (self.take func v sep).withSeen seen := by
  cases func with
  | sum | avg =>
      simp only [take]
      cases v.asF64 with
      | none => rfl
      | some n => rfl
  | min =>
      simp only [take, apply_ite (fun acc : Acc => acc.withSeen seen)]
      rfl
  | max =>
      simp only [take, apply_ite (fun acc : Acc => acc.withSeen seen)]
      rfl
  | _ => rfl

@[simp] theorem distinct_take (self : Acc) (func : AggFunc) (v : Value) (sep : Option Text) :
    (self.take func v sep).distinct = self.distinct := by
  have same := congrArg Acc.distinct (take_withSeen self self.distinct func v sep)
  exact same

/-- Take the arguments one after another. -/
def takeAll (self : Acc) (func : AggFunc) (given : List (Text × Value)) : Acc :=
  given.foldl (fun acc entry => acc.take func entry.2 (some entry.1)) self

theorem takeAll_cons (self : Acc) (func : AggFunc) (entry : Text × Value)
    (given : List (Text × Value)) :
    self.takeAll func (entry :: given) =
      (self.take func entry.2 (some entry.1)).takeAll func given := rfl

/-- Update with the arguments of the rows. -/
def run (self : Acc) (agg : AggExpr E) (arguments : List (Text × Value)) : Acc :=
  arguments.foldl (fun acc entry => acc.update agg entry.2 (some entry.1)) self

/-- **Updating takes what is given.** -/
theorem run_eq {agg : AggExpr E} (notStar : agg.func ≠ .countStar)
    {arguments : List (Text × Value)} (sortable : ∀ entry ∈ arguments, entry.2.Sortable) {self : Acc}
    (sortableSeen : ∀ v ∈ self.distinct, v.Sortable) :
    (self.run agg arguments).withSeen [] = (self.withSeen []).takeAll agg.func
      (if agg.distinct then
        keepFirst Prod.snd self.distinct (arguments.filter fun entry => !entry.2.isNull)
      else arguments.filter fun entry => !entry.2.isNull) := by
  induction arguments generalizing self with
  | nil => simp [run, takeAll, keepFirst]
  | cons entry arguments ih =>
      have sortableEntry := sortable entry List.mem_cons_self
      have ih := @ih fun other member => sortable other (List.mem_cons_of_mem _ member)
      change ((self.update agg entry.2 (some entry.1)).run agg arguments).withSeen [] = _
      rw [update, if_neg notStar]
      by_cases null : entry.2.isNull = true
      · rw [if_pos null, List.filter_cons_of_neg (by simp [null])]
        exact ih sortableSeen
      · rw [if_neg null, List.filter_cons_of_pos (by simpa using null)]
        by_cases distinct : agg.distinct = true
        · simp only [if_pos distinct] at ih ⊢
          have seen : (self.distinct.any fun d => d.eq entry.2) = true ↔ entry.2 ∈ self.distinct := by
            rw [List.any_eq_true]
            constructor
            · rintro ⟨d, member, equal⟩
              rw [Value.eq_iff (sortableSeen d member) sortableEntry] at equal
              exact equal ▸ member
            · exact fun member => ⟨_, member, (Value.eq_iff sortableEntry sortableEntry).mpr rfl⟩
          by_cases there : entry.2 ∈ self.distinct
          · rw [if_pos (seen.mpr there), keepFirst_cons_of_mem there]
            exact ih sortableSeen
          · rw [if_neg (mt seen.mp there), keepFirst_cons_of_not_mem there, takeAll_cons, take_withSeen]
            have further := @ih (self.withSeen (self.distinct ++ [entry.2]) |>.take agg.func entry.2
              (some entry.1)) (by
                rw [distinct_take]
                intro v member
                rcases List.mem_append.mp member with old | new
                · exact sortableSeen v old
                · rw [List.mem_singleton.mp new]
                  exact sortableEntry)
            rw [distinct_take] at further
            refine further.trans (congrArg (fun acc : Acc => acc.takeAll agg.func _) ?_)
            rw [take_withSeen]
            rfl
        · simp only [if_neg distinct] at ih ⊢
          rw [takeAll_cons, take_withSeen]
          exact ih (by rwa [distinct_take])

/-! ## The values -/

variable {given : List (Text × Value)} {self : Acc}

theorem takeAll_count :
    (self.takeAll .count given) = { self with count := self.count + given.length } := by
  induction given generalizing self with
  | nil => rfl
  | cons entry given ih =>
      rw [takeAll_cons, ih, List.length_cons]
      simp only [take, Nat.add_assoc, Nat.add_comm 1]

/-- SUM and AVG take the arguments that are numbers. -/
theorem takeAll_numbers {func : AggFunc} (adds : func = .sum ∨ func = .avg) :
    let numbers := given.filterMap fun entry => entry.2.asF64
    (self.takeAll func given).sum = numbers.foldl (· + ·) self.sum ∧
      (self.takeAll func given).count = self.count + numbers.length ∧
      (self.takeAll func given).sumSeen = (self.sumSeen || !numbers.isEmpty) := by
  induction given generalizing self with
  | nil => exact ⟨rfl, rfl, (Bool.or_false _).symm⟩
  | cons entry given ih =>
      rw [takeAll_cons]
      obtain ⟨sum, count, seen⟩ := @ih (self.take func entry.2 (some entry.1))
      intro numbers
      rw [sum, count, seen]
      cases number : entry.2.asF64 with
      | none =>
          have taken : self.take func entry.2 (some entry.1) = self := by
            rcases adds with rfl | rfl <;> simp only [take, number]
          have same : numbers = given.filterMap fun entry => entry.2.asF64 :=
            List.filterMap_cons_none number
          rw [taken, same]
          exact ⟨rfl, rfl, rfl⟩
      | some n =>
          have taken : self.take func entry.2 (some entry.1) =
              { self with sum := self.sum + n, sumSeen := true, count := self.count + 1 } := by
            rcases adds with rfl | rfl <;> simp only [take, number]
          have same : numbers = n :: given.filterMap fun entry => entry.2.asF64 :=
            List.filterMap_cons_some number
          rw [taken, same, List.foldl_cons, List.length_cons, List.isEmpty_cons, Bool.not_false,
            Bool.or_true, Bool.true_or]
          exact ⟨rfl, Nat.add_right_comm _ _ _ |>.trans (Nat.add_assoc _ _ _), rfl⟩

/-- MIN and MAX keep the first value that no value is beyond. -/
theorem takeAll_extreme {func : AggFunc} {cmp : Value → Value → Ordering} {among : Value → Prop}
    (beyond : ∀ (acc : Acc) (v : Value) (sep : Option Text), among v →
      (∀ e ∈ acc.extreme, among e) → acc.take func v sep =
        if acc.extreme.all fun e => cmp v e = .lt then { acc with extreme := some v } else acc)
    (given_among : ∀ entry ∈ given, among entry.2) (self_among : ∀ e ∈ self.extreme, among e) :
    (self.takeAll func given).extreme =
      (given.map Prod.snd).foldl (fun first item =>
        if first.all fun best => cmp item best = .lt then some item else first) self.extreme := by
  induction given generalizing self with
  | nil => rfl
  | cons entry given ih =>
      have entry_among := given_among entry List.mem_cons_self
      have rest := fun other member => given_among other (List.mem_cons_of_mem _ member)
      rw [takeAll_cons, List.map_cons, List.foldl_cons, beyond self entry.2 _ entry_among self_among]
      by_cases best : (self.extreme.all fun e => cmp entry.2 e = .lt) = true
      · rw [if_pos best, if_pos best]
        exact ih rest fun e same => (Option.some.inj same) ▸ entry_among
      · rw [if_neg best, if_neg best]
        exact ih rest self_among

/-- GROUP_CONCAT, when there was a text before. -/
theorem takeAll_groupConcat_seen (seen : self.gcSeen = true) :
    (self.takeAll .groupConcat given).gc =
        self.gc ++ given.flatMap (fun (sep, w) => sep ++ w.toDisplayString) ∧
      (self.takeAll .groupConcat given).gcSeen = true := by
  induction given generalizing self with
  | nil => exact ⟨(List.append_nil _).symm, seen⟩
  | cons entry given ih =>
      obtain ⟨gc, gcSeen⟩ := @ih (self.take .groupConcat entry.2 (some entry.1)) rfl
      rw [takeAll_cons, gc]
      refine ⟨?_, gcSeen⟩
      simp only [take, seen, if_true, Option.getD_some, List.flatMap_cons, List.append_assoc]

theorem run_countStar {agg : AggExpr E} (star : agg.func = .countStar)
    {arguments : List (Text × Value)} :
    (self.run agg arguments).count = self.count + arguments.length := by
  induction arguments generalizing self with
  | nil => rfl
  | cons entry arguments ih =>
      change ((self.update agg entry.2 (some entry.1)).run agg arguments).count = _
      rw [ih, update, if_pos star, List.length_cons]
      exact (Nat.add_assoc _ _ _).trans (congrArg (self.count + ·) (Nat.add_comm 1 _))

/-- The values among which MIN and MAX choose. -/
def Comparable (v : Value) : Prop := v.Sortable ∧ v.isNull = false

/-- MIN and MAX compare these by the order. -/
theorem compare_eq {a b : Value} (comparableA : Comparable a) (comparableB : Comparable b) :
    a.compare b = some (Value.sortOrder a b) := by
  obtain ⟨oneNull, _⟩ | ⟨_, compared⟩ :=
    Value.compare_eq_none_or_some comparableA.1 comparableB.1
  · exact absurd (comparableA.2.trans comparableB.2.symm) oneNull
  · exact compared

theorem finalize_min (comparable : ∀ entry ∈ given, Comparable entry.2) :
    (new.takeAll .min given).extreme = (sortBy Value.sortOrder (given.map Prod.snd)).head? := by
  rw [← foldl_first_eq_head?_sortBy]
  · refine takeAll_extreme (fun acc v sep comparable all => ?_) comparable fun e none => nomatch none
    simp only [take]
    refine if_congr (Bool.eq_iff_iff.mp ?_) rfl rfl
    cases extreme : acc.extreme with
    | none => rfl
    | some e =>
        rw [Option.all_some, Option.all_some, compare_eq comparable (all e extreme)]
        exact decide_eq_decide.mpr (by rw [Option.some.injEq])
  · intro a inA b inB equal
    obtain ⟨entry, member, rfl⟩ := List.mem_map.mp inA
    obtain ⟨entry', member', rfl⟩ := List.mem_map.mp inB
    exact (Value.sortOrder_eq_eq_iff (comparable _ member).1 (comparable _ member').1).mp equal

theorem finalize_max (comparable : ∀ entry ∈ given, Comparable entry.2) :
    (new.takeAll .max given).extreme =
      (sortBy (fun a b => Value.sortOrder b a) (given.map Prod.snd)).head? := by
  have descending : Std.TransCmp fun a b => Value.sortOrder b a := Std.TransCmp.opposite
  rw [← foldl_first_eq_head?_sortBy]
  · refine takeAll_extreme (fun acc v sep comparable all => ?_) comparable fun e none => nomatch none
    simp only [take]
    refine if_congr (Bool.eq_iff_iff.mp ?_) rfl rfl
    cases extreme : acc.extreme with
    | none => rfl
    | some e =>
        rw [Option.all_some, Option.all_some, compare_eq comparable (all e extreme)]
        refine decide_eq_decide.mpr ?_
        rw [Option.some.injEq, Std.OrientedCmp.gt_iff_lt]
  · intro a inA b inB equal
    obtain ⟨entry, member, rfl⟩ := List.mem_map.mp inA
    obtain ⟨entry', member', rfl⟩ := List.mem_map.mp inB
    exact ((Value.sortOrder_eq_eq_iff (comparable _ member').1 (comparable _ member).1).mp equal).symm

/-- **The value of an accumulator** that takes the arguments of the rows of a group. -/
theorem finalize_run {agg : AggExpr E} {arguments : List (Text × Value)}
    (sortable : ∀ entry ∈ arguments, entry.2.Sortable) :
    (new.run agg arguments).finalize agg.func = aggregateOf agg.func agg.distinct arguments := by
  by_cases star : agg.func = .countStar
  · have count := @run_countStar E new agg star arguments
    rw [star, finalize, count, aggregateOf]
    exact congrArg (fun n => Value.integer (Int64.ofNat n)) (Nat.zero_add _)
  · have taken := @run_eq E agg star arguments sortable new (List.forall_mem_nil _)
    have given_eq : (if agg.distinct then
        keepFirst Prod.snd new.distinct (arguments.filter fun entry => !entry.2.isNull)
        else arguments.filter fun entry => !entry.2.isNull) =
        givenArguments agg.distinct arguments := by
      rw [givenArguments, ← keepFirst_nil]
      rfl
    rw [given_eq] at taken
    have comparable : ∀ entry ∈ givenArguments agg.distinct arguments, Comparable entry.2 := by
      intro entry member
      have inFilter : entry ∈ arguments.filter fun entry => !entry.2.isNull := by
        rw [givenArguments] at member
        split at member
        · exact firstOccurrences_subset member
        · exact member
      obtain ⟨inArguments, given⟩ := List.mem_filter.mp inFilter
      exact ⟨sortable entry inArguments, by simpa using given⟩
    rw [← finalize_withSeen _ [], taken]
    change (new.takeAll agg.func _).finalize agg.func = _
    unfold aggregateOf
    generalize givenArguments agg.distinct arguments = given at comparable
    cases func : agg.func with
    | countStar => exact absurd func star
    | count =>
        rw [finalize, takeAll_count]
        exact congrArg (fun n => Value.integer (Int64.ofNat n)) (Nat.zero_add _)
    | sum =>
        obtain ⟨sum, _, seen⟩ := @takeAll_numbers given new .sum (.inl rfl)
        simp only [finalize, sum, seen]
        generalize given.filterMap (fun entry => entry.2.asF64) = numbers
        cases numbers with
        | nil => rfl
        | cons n numbers => rfl
    | avg =>
        obtain ⟨sum, count, _⟩ := @takeAll_numbers given new .avg (.inr rfl)
        simp only [finalize, sum, count]
        generalize given.filterMap (fun entry => entry.2.asF64) = numbers
        cases numbers with
        | nil => rfl
        | cons n numbers =>
            have length : new.count + (n :: numbers).length = (n :: numbers).length := Nat.zero_add _
            rw [length, if_pos (List.length_pos_of_ne_nil (List.cons_ne_nil _ _)),
              if_neg (List.cons_ne_nil _ _)]
            rfl
    | min => rw [finalize, finalize_min comparable]
    | max => rw [finalize, finalize_max comparable]
    | groupConcat =>
        cases given with
        | nil => rfl
        | cons entry given =>
            obtain ⟨gc, seen⟩ := @takeAll_groupConcat_seen given
              (new.take .groupConcat entry.2 (some entry.1)) rfl
            rw [takeAll_cons, finalize, seen, gc]
            rfl

end Acc

end Squrust.Sql
