import Squrust.Foundation.Outcome

/-!
# Assignments in turn and all together

A list of assignments gives cells of a state new values. Carried out in turn, a
right-hand side is evaluated on the state its turn finds; all together, every one is
evaluated on the state before the first.

For different cells the two are the same exactly if no right-hand side depends on
the assignments before it (`Cells.inTurn_iff`), and all together the order does not
matter (`Cells.together_perm`).
-/

set_option autoImplicit false

namespace Squrust.Foundation

variable {ε S ι X V : Type}

namespace Assignments

/-- Each right-hand side on the state its turn finds. -/
def inTurn (value : S → ι → X → Outcome ε V) (place : ι → V → S → Outcome ε S) :
    List (ι × X) → S → Outcome ε S
  | [], s => .ok s
  | (i, x) :: rest, s => do
      let v ← value s i x
      let s ← place i v s
      inTurn value place rest s

variable (value : S → ι → X → Outcome ε V) (place : ι → V → S → Outcome ε S) (before : S)

/-- Each right-hand side on the state before. -/
def together : List (ι × X) → S → Outcome ε S := inTurn (fun _ => value before) place

/-- A right-hand side has the value it has on the state before also where the cells before it
have their new values. -/
def Independent (assignments : List (ι × X)) : Prop :=
  ∀ earlier i x later, assignments = earlier ++ (i, x) :: later →
    ∀ reached, together value place before earlier before = .ok reached →
      value reached i x = value before i x

/-- Every right-hand side has a value on the state before, and its cell takes it. -/
def Assignable (fits : S → ι → V → Prop) (assignments : List (ι × X)) : Prop :=
  ∀ a ∈ assignments, ∃ v, value before a.1 a.2 = .ok v ∧ fits before a.1 v

/-- The cells hold what the right-hand sides are on the state before. -/
def Simultaneous (held : S → ι → Option V) (assignments : List (ι × X)) (after : S) : Prop :=
  ∀ a ∈ assignments, ∃ v, value before a.1 a.2 = .ok v ∧ held after a.1 = some v

/-- What the last right-hand side for a cell is at its turn. -/
def lastValue [DecidableEq ι] (cell : ι) : List (ι × X) → S → Option V
  | [], _ => none
  | (i, x) :: rest, s =>
      match value s i x with
      | .error _ => none
      | .ok v =>
          match place i v s with
          | .error _ => none
          | .ok between => (lastValue cell rest between).or (if i = cell then some v else none)

variable {value place before}

theorem inTurn_cons {i : ι} {x : X} {rest : List (ι × X)} {s after : S}
    (done : inTurn value place ((i, x) :: rest) s = .ok after) :
    ∃ v between, value s i x = .ok v ∧ place i v s = .ok between ∧
      inTurn value place rest between = .ok after := by
  obtain ⟨v, evaluated, later⟩ := Outcome.bind_eq_ok.mp done
  obtain ⟨between, placed, later⟩ := Outcome.bind_eq_ok.mp later
  exact ⟨v, between, evaluated, placed, later⟩

theorem inTurn_of_cons {i : ι} {x : X} {v : V} {rest : List (ι × X)} {s between : S}
    (evaluated : value s i x = .ok v) (placed : place i v s = .ok between) :
    inTurn value place ((i, x) :: rest) s = inTurn value place rest between := by
  rw [inTurn, evaluated, Outcome.ok_bind, placed, Outcome.ok_bind]

theorem together_of_cons {i : ι} {x : X} {v : V} {rest : List (ι × X)} {s between : S}
    (evaluated : value before i x = .ok v) (placed : place i v s = .ok between) :
    together value place before ((i, x) :: rest) s = together value place before rest between :=
  inTurn_of_cons evaluated placed

/-- One more assignment. -/
theorem together_append {earlier : List (ι × X)} {i : ι} {x : X} {v : V} {s reached between : S}
    (run : together value place before earlier s = .ok reached)
    (evaluated : value before i x = .ok v) (placed : place i v reached = .ok between) :
    together value place before (earlier ++ [(i, x)]) s = .ok between := by
  induction earlier generalizing s with
  | nil =>
      obtain rfl := Except.ok.inj run
      exact together_of_cons evaluated placed
  | cons a earlier ih =>
      obtain ⟨j, y⟩ := a
      obtain ⟨w, next, evaluated', placed', later⟩ := inTurn_cons run
      exact (together_of_cons evaluated' placed').trans (ih later)

end Assignments

open Assignments

/-- How cells are written: what a cell holds, and which values it takes. -/
structure Cells (held : S → ι → Option V) (fits : S → ι → V → Prop)
    (place : ι → V → S → Outcome ε S) : Prop where
  placed : ∀ {i v s after}, place i v s = .ok after → held after i = some v
  /-- Other cells keep what they hold. -/
  frame : ∀ {i v s after j}, place i v s = .ok after → j ≠ i → held after j = held s j
  fits_iff : ∀ {i v s}, (∃ after, place i v s = .ok after) ↔ fits s i v
  kept : ∀ {i v s after j w}, place i v s = .ok after → (fits after j w ↔ fits s j w)
  swap : ∀ {i j v w s between after}, i ≠ j → place i v s = .ok between → place j w between = .ok after →
    ∃ other, place j w s = .ok other ∧ place i v other = .ok after

namespace Cells

variable {held : S → ι → Option V} {fits : S → ι → V → Prop} {place : ι → V → S → Outcome ε S}
  {value : S → ι → X → Outcome ε V} {before s after : S} {assignments : List (ι × X)}

/-- Cells without an assignment keep what they hold. -/
theorem inTurn_frame (cells : Cells held fits place)
    (done : inTurn value place assignments s = .ok after) {j : ι}
    (absent : j ∉ assignments.map Prod.fst) : held after j = held s j := by
  induction assignments generalizing s with
  | nil =>
      obtain rfl := Except.ok.inj done
      rfl
  | cons a rest ih =>
      obtain ⟨i, x⟩ := a
      obtain ⟨v, between, _, placed, later⟩ := inTurn_cons done
      simp only [List.map_cons, List.mem_cons, not_or] at absent
      rw [ih later absent.2, cells.frame placed absent.1]

/-- The cell of the first assignment holds its value to the end. -/
theorem held_first (cells : Cells held fits place) {i : ι} {x : X} {v : V} {between : S}
    (distinct : (((i, x) :: assignments).map Prod.fst).Nodup) (placed : place i v s = .ok between)
    (later : inTurn value place assignments between = .ok after) : held after i = some v := by
  rw [List.map_cons, List.nodup_cons] at distinct
  rw [cells.inTurn_frame later distinct.1, cells.placed placed]

/-- **In turn, a cell ends with its last value**, or what it held if it is given none. -/
theorem inTurn_held [DecidableEq ι] (cells : Cells held fits place)
    (done : inTurn value place assignments s = .ok after) (cell : ι) :
    held after cell = (lastValue value place cell assignments s).or (held s cell) := by
  induction assignments generalizing s with
  | nil =>
      obtain rfl := Except.ok.inj done
      rfl
  | cons a rest ih =>
      obtain ⟨i, x⟩ := a
      obtain ⟨v, between, evaluated, placed, later⟩ := inTurn_cons done
      rw [ih later]
      simp only [lastValue, evaluated, placed]
      by_cases here : i = cell
      · subst here
        rw [cells.placed placed, if_pos rfl, Option.or_assoc, Option.some_or]
      · rw [cells.frame placed (Ne.symm here), if_neg here, Option.or_none]

/-- A last value is that of some right-hand side for the cell. -/
theorem lastValue_eq_some [DecidableEq ι] {cell : ι} {v : V}
    (last : lastValue value place cell assignments s = some v) :
    ∃ x reached, (cell, x) ∈ assignments ∧ value reached cell x = .ok v := by
  induction assignments generalizing s with
  | nil => cases last
  | cons a rest ih =>
      obtain ⟨i, x⟩ := a
      rw [lastValue] at last
      split at last
      · cases last
      · next w evaluated =>
        split at last
        · cases last
        · next between placed =>
          rcases Option.or_eq_some_iff.mp last with later | ⟨_, here⟩
          · obtain ⟨x', reached, member, same⟩ := ih later
            exact ⟨x', reached, List.mem_cons_of_mem _ member, same⟩
          · split at here
            · next same =>
              subst same
              obtain rfl := Option.some.inj here
              exact ⟨x, s, List.mem_cons_self, evaluated⟩
            · cases here

theorem together_ok_iff (cells : Cells held fits place) :
    (∃ after, together value place before assignments s = .ok after) ↔
      ∀ a ∈ assignments, ∃ v, value before a.1 a.2 = .ok v ∧ fits s a.1 v := by
  induction assignments generalizing s with
  | nil => exact ⟨fun _ a member => absurd member List.not_mem_nil, fun _ => ⟨s, rfl⟩⟩
  | cons a rest ih =>
      obtain ⟨i, x⟩ := a
      rw [List.forall_mem_cons]
      constructor
      · rintro ⟨after, done⟩
        obtain ⟨v, between, evaluated, placed, later⟩ := inTurn_cons done
        refine ⟨⟨v, evaluated, cells.fits_iff.mp ⟨between, placed⟩⟩, fun a member => ?_⟩
        obtain ⟨w, evaluated', fitting⟩ := ih.mp ⟨after, later⟩ a member
        exact ⟨w, evaluated', (cells.kept placed).mp fitting⟩
      · rintro ⟨⟨v, evaluated, fitting⟩, others⟩
        obtain ⟨between, placed⟩ := cells.fits_iff.mpr fitting
        obtain ⟨after, later⟩ := (ih (s := between)).mpr fun a member => by
          obtain ⟨w, evaluated', fitting'⟩ := others a member
          exact ⟨w, evaluated', (cells.kept placed).mpr fitting'⟩
        exact ⟨after, (together_of_cons evaluated placed).trans later⟩

/-- All together, every cell gets the value its right-hand side has on the state before. -/
theorem together_simultaneous (cells : Cells held fits place)
    (distinct : (assignments.map Prod.fst).Nodup)
    (done : together value place before assignments s = .ok after) :
    Simultaneous value before held assignments after := by
  induction assignments generalizing s with
  | nil => exact fun a member => absurd member List.not_mem_nil
  | cons a rest ih =>
      obtain ⟨i, x⟩ := a
      obtain ⟨v, between, evaluated, placed, later⟩ := inTurn_cons done
      have first := cells.held_first distinct placed later
      rw [List.map_cons, List.nodup_cons] at distinct
      exact List.forall_mem_cons.mpr ⟨⟨v, evaluated, first⟩, ih distinct.2 later⟩

/-! ## In turn -/

/-- Independent assignments in turn are the same as all together. The induction is on what is
left, from the state the assignments before it reached together. -/
theorem inTurn_eq_together (independent : Independent value place before assignments) :
    inTurn value place assignments before = together value place before assignments before := by
  suffices rest : ∀ rest earlier reached, assignments = earlier ++ rest →
      together value place before earlier before = .ok reached →
      inTurn value place rest reached = together value place before rest reached from
    rest assignments [] before rfl rfl
  intro rest
  induction rest with
  | nil => exact fun _ _ _ _ => rfl
  | cons a rest ih =>
      obtain ⟨i, x⟩ := a
      intro earlier reached split run
      have same := independent earlier i x rest split reached run
      rw [inTurn, together, inTurn, same]
      cases evaluated : value before i x with
      | error fault => rfl
      | ok v =>
          rw [Outcome.ok_bind, Outcome.ok_bind]
          cases placed : place i v reached with
          | error fault => rfl
          | ok between =>
              refine ih (earlier ++ [(i, x)]) between (by rw [split, List.append_assoc]; rfl) ?_
              exact together_append run evaluated placed

/-- If every cell got the right value in turn, the right-hand sides are independent. -/
theorem independent_of_simultaneous (cells : Cells held fits place)
    (distinct : (assignments.map Prod.fst).Nodup)
    (done : inTurn value place assignments before = .ok after)
    (right : Simultaneous value before held assignments after) :
    Independent value place before assignments := by
  suffices from_ : ∀ assignments s, (assignments.map Prod.fst).Nodup →
      inTurn value place assignments s = .ok after →
      Simultaneous value before held assignments after →
      ∀ earlier i x later, assignments = earlier ++ (i, x) :: later →
        ∀ reached, together value place before earlier s = .ok reached →
          value reached i x = value before i x from
    from_ assignments before distinct done right
  intro assignments
  induction assignments with
  | nil =>
      intro s _ _ _ earlier i x later split
      simp at split
  | cons a rest ih =>
      obtain ⟨i, x⟩ := a
      intro s distinct done right earlier j y later split reached run
      obtain ⟨v, between, evaluated, placed, rest_⟩ := inTurn_cons done
      obtain ⟨⟨w, expected, holds⟩, others⟩ := List.forall_mem_cons.mp right
      -- The first cell holds the value it was given, so its right-hand side had the right one.
      have same : v = w :=
        Option.some.inj ((cells.held_first distinct placed rest_).symm.trans holds)
      subst same
      cases earlier with
      | nil =>
          obtain rfl := Except.ok.inj run
          obtain ⟨first, rfl⟩ := List.cons.inj split
          obtain ⟨rfl, rfl⟩ := Prod.mk.inj first
          rw [evaluated]
          exact expected.symm
      | cons b earlier =>
          obtain ⟨first, tails⟩ := List.cons.inj split
          subst first
          obtain ⟨v', between', expected', placed', run⟩ := inTurn_cons run
          obtain rfl := Except.ok.inj (expected'.symm.trans expected)
          obtain rfl := Except.ok.inj (placed'.symm.trans placed)
          rw [List.map_cons, List.nodup_cons] at distinct
          exact ih between' distinct.2 rest_ others earlier j y later tails reached run

/-- **In turn, every cell gets the value its right-hand side has on the state before** exactly if
no right-hand side depends on the assignments before it. -/
theorem inTurn_iff (cells : Cells held fits place) (distinct : (assignments.map Prod.fst).Nodup) :
    (∃ after, inTurn value place assignments before = .ok after ∧
        Simultaneous value before held assignments after) ↔
      Assignable value before fits assignments ∧ Independent value place before assignments := by
  constructor
  · rintro ⟨after, done, right⟩
    have independent := cells.independent_of_simultaneous distinct done right
    have same := inTurn_eq_together independent
    exact ⟨cells.together_ok_iff.mp ⟨after, same.symm.trans done⟩, independent⟩
  · rintro ⟨assignable, independent⟩
    obtain ⟨after, done⟩ := cells.together_ok_iff.mpr assignable
    exact ⟨after, (inTurn_eq_together independent).trans done,
      cells.together_simultaneous distinct done⟩

/-! ## The order -/

/-- **All together, the order does not matter.** -/
theorem together_perm (cells : Cells held fits place) {others : List (ι × X)}
    (perm : assignments.Perm others) (distinct : (assignments.map Prod.fst).Nodup)
    (done : together value place before assignments s = .ok after) :
    together value place before others s = .ok after := by
  induction perm generalizing s after with
  | nil => exact done
  | cons a perm ih =>
      obtain ⟨i, x⟩ := a
      obtain ⟨v, between, evaluated, placed, later⟩ := inTurn_cons done
      rw [List.map_cons, List.nodup_cons] at distinct
      exact (together_of_cons evaluated placed).trans
        (ih distinct.2 later)
  | swap a b rest =>
      obtain ⟨i, x⟩ := a
      obtain ⟨j, y⟩ := b
      obtain ⟨w, between, evaluated, placed, later⟩ := inTurn_cons done
      obtain ⟨v, between', evaluated', placed', later⟩ := inTurn_cons later
      have different : j ≠ i := by
        simp only [List.map_cons, List.nodup_cons, List.mem_cons, not_or] at distinct
        exact distinct.1.1
      obtain ⟨other, first, second⟩ := cells.swap different placed placed'
      exact (together_of_cons evaluated' first).trans
        ((together_of_cons evaluated second).trans later)
  | trans first _ ih ih' => exact ih' ((first.map Prod.fst).nodup_iff.mp distinct) (ih distinct done)

end Cells

end Squrust.Foundation
