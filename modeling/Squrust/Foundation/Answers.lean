import Squrust.Foundation.Outcome

/-!
# Calls that answer

A call answers when it returns a value or an error: it neither panics nor runs
on. The value has a property that the calls behind it rely on, so the rules are
those of a postcondition (`Answers.bind`).

Where it matters exactly when a call answers, and with errors of which kind, the
rules are equivalences (`settles_bind_iff`): a sequence answers exactly when its
first part does, and the next one does on the value the first part returns.
-/

set_option autoImplicit false

namespace Squrust.Foundation

variable {ε α β : Type}

namespace Outcome

/-- The call returns a value with the property, or an error. -/
def Answers (outcome : Outcome ε α) (Holds : α → Prop) : Prop :=
  (∃ value, outcome = .ok value ∧ Holds value) ∨ ∃ e, outcome = .err e

variable {Holds : α → Prop} {Then : β → Prop}

theorem Answers.ok {value : α} (holds : Holds value) : Answers (.ok value : Outcome ε α) Holds :=
  Or.inl ⟨value, rfl, holds⟩

theorem Answers.pure {value : α} (holds : Holds value) : (pure value : Outcome ε α).Answers Holds :=
  .ok holds

theorem Answers.err (e : ε) : (Outcome.err e : Outcome ε α).Answers Holds := Or.inr ⟨e, rfl⟩

theorem Answers.mono {outcome : Outcome ε α} {Weaker : α → Prop} (answers : outcome.Answers Holds)
    (weaker : ∀ value, Holds value → Weaker value) : outcome.Answers Weaker := by
  rcases answers with ⟨value, returned, holds⟩ | failed
  · exact Or.inl ⟨value, returned, weaker value holds⟩
  · exact Or.inr failed

theorem Answers.bind {first : Outcome ε α} {next : α → Outcome ε β} (answers : first.Answers Holds)
    (later : ∀ value, Holds value → (next value).Answers Then) : (first >>= next).Answers Then := by
  rcases answers with ⟨value, rfl, holds⟩ | ⟨e, rfl⟩
  · exact later value holds
  · exact .err e

/-- A value that may be missing is one with the property. -/
theorem Answers.orErr {value? : Option α} {e : ε} (holds : ∀ value, value? = some value → Holds value) :
    (Outcome.orErr e value?).Answers Holds := by
  cases value? with
  | some value => exact .ok (holds value rfl)
  | none => exact .err e

/-- A value that must be there is there. -/
theorem Answers.orPanic {value? : Option α} {reason : String}
    (there : ∃ value, value? = some value ∧ Holds value) :
    (Outcome.orPanic reason value? : Outcome ε α).Answers Holds := by
  obtain ⟨value, rfl, holds⟩ := there
  exact .ok holds

theorem Answers.ite {condition : Prop} [Decidable condition] {first second : Outcome ε α}
    (whenTrue : condition → first.Answers Holds) (whenFalse : ¬ condition → second.Answers Holds) :
    (if condition then first else second).Answers Holds := by
  split
  · exact whenTrue ‹_›
  · exact whenFalse ‹_›

/-- The call returns a value, or an error of a kind. -/
def Settles (outcome : Outcome ε α) (Raises : ε → Prop) : Prop :=
  (∃ value, outcome = .ok value) ∨ ∃ e, Raises e ∧ outcome = .err e

variable {Raises : ε → Prop}

theorem settles_ok (value : α) : Settles (.ok value : Outcome ε α) Raises := Or.inl ⟨value, rfl⟩

theorem settles_err_iff {e : ε} : (Outcome.err e : Outcome ε α).Settles Raises ↔ Raises e := by
  refine ⟨fun settles => ?_, fun raises => Or.inr ⟨e, raises, rfl⟩⟩
  rcases settles with ⟨value, returned⟩ | ⟨e', raises, same⟩
  · cases returned
  · cases same
    exact raises

theorem not_settles_panic {reason : String} : ¬ (Outcome.panic reason : Outcome ε α).Settles Raises := by
  rintro (⟨value, returned⟩ | ⟨e, -, failed⟩)
  · cases returned
  · cases failed

theorem settles_bind_iff {first : Outcome ε α} {next : α → Outcome ε β} :
    (first >>= next).Settles Raises ↔
      first.Settles Raises ∧ ∀ value, first = .ok value → (next value).Settles Raises := by
  cases first with
  | ok value =>
      refine ⟨fun settles => ⟨settles_ok value, fun other same => ?_⟩, fun both => both.2 value rfl⟩
      cases same
      exact settles
  | error fault =>
      refine ⟨fun settles => ⟨?_, fun value absurd => by cases absurd⟩, fun both => ?_⟩
      · rcases settles with ⟨value, returned⟩ | ⟨e, raises, failed⟩
        · cases returned
        · cases failed
          exact Or.inr ⟨e, raises, rfl⟩
      · rcases both.1 with ⟨value, returned⟩ | ⟨e, raises, failed⟩
        · cases returned
        · cases failed
          exact Or.inr ⟨e, raises, rfl⟩

theorem settles_orPanic_iff {value? : Option α} {reason : String} :
    (Outcome.orPanic reason value? : Outcome ε α).Settles Raises ↔ value?.isSome = true := by
  cases value? with
  | some value => exact iff_of_true (settles_ok value) rfl
  | none => exact iff_of_false not_settles_panic Bool.false_ne_true

theorem settles_orErr {value? : Option α} {e : ε} (raises : Raises e) :
    (Outcome.orErr e value?).Settles Raises := by
  cases value? with
  | some value => exact settles_ok value
  | none => exact settles_err_iff.mpr raises

end Outcome

end Squrust.Foundation
