import Mathlib.Data.List.Basic
import Mathlib.Tactic.Common

/-!
# Three-valued logic

Truth values with an unknown one, and what follows for a disjunction over a list:
it is true if one of its parts is, else unknown if one of its parts is, else false.
-/

set_option autoImplicit false

namespace Squrust.Foundation

/-- True, false or unknown. -/
abbrev Truth := Option Bool

namespace Truth

def or3 : Truth → Truth → Truth
  | some true, _ | _, some true => some true
  | some false, some false => some false
  | _, _ => none

def not3 (a : Truth) : Truth := a.map Bool.not

/-- The negation, if there is a `NOT`. -/
def negatedIf (negated : Bool) (a : Truth) : Truth := if negated then not3 a else a

/-- The disjunction of a list. -/
def any (parts : List Truth) : Truth := parts.foldr or3 (some false)

@[simp] theorem any_nil : any [] = some false := rfl

@[simp] theorem any_cons (part : Truth) (parts : List Truth) :
    any (part :: parts) = or3 part (any parts) := rfl

theorem or3_eq_true {a b : Truth} : or3 a b = some true ↔ a = some true ∨ b = some true := by
  rcases a with _ | _ | _ <;> rcases b with _ | _ | _ <;> simp [or3]

theorem or3_eq_false {a b : Truth} : or3 a b = some false ↔ a = some false ∧ b = some false := by
  rcases a with _ | _ | _ <;> rcases b with _ | _ | _ <;> simp [or3]

theorem any_eq_true {parts : List Truth} : any parts = some true ↔ some true ∈ parts := by
  induction parts with
  | nil => simp
  | cons part parts ih => rw [any_cons, or3_eq_true, ih, List.mem_cons, eq_comm]

theorem any_eq_false {parts : List Truth} :
    any parts = some false ↔ ∀ part ∈ parts, part = some false := by
  induction parts with
  | nil => simp
  | cons part parts ih => rw [any_cons, or3_eq_false, ih, List.forall_mem_cons]

/-- A disjunction without a true part is unknown when one of its parts is. -/
theorem any_eq_none {parts : List Truth} :
    any parts = none ↔ some true ∉ parts ∧ none ∈ parts := by
  constructor
  · intro unknown
    have noTrue : some true ∉ parts := fun member => by
      rw [any_eq_true.mpr member] at unknown
      cases unknown
    refine ⟨noTrue, ?_⟩
    by_contra noUnknown
    have allFalse : any parts = some false := any_eq_false.mpr fun part member => by
      cases part with
      | none => exact absurd member noUnknown
      | some value =>
          cases value with
          | true => exact absurd member noTrue
          | false => rfl
    rw [allFalse] at unknown
    cases unknown
  · rintro ⟨noTrue, member⟩
    cases result : any parts with
    | none => rfl
    | some value =>
        cases value with
        | true => exact absurd (any_eq_true.mp result) noTrue
        | false => cases any_eq_false.mp result none member

theorem negatedIf_inj {negated : Bool} {a b : Truth} : negatedIf negated a = negatedIf negated b ↔ a = b := by
  cases negated with
  | false => rfl
  | true => rcases a with _ | _ | _ <;> rcases b with _ | _ | _ <;> simp [negatedIf, not3]

end Truth

end Squrust.Foundation
