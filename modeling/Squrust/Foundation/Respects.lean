import Squrust.Foundation.Outcome

/-!
# Code that respects a relation

Code respects a relation between stores when from related stores it has the same
outcome and leaves related stores. With the relation "equal but for some part",
this says that the outcome does not depend on that part. Code built from parts
that respect a relation respects it (`Respects.bind`, `Respects.read`).
-/

set_option autoImplicit false

namespace Squrust.Foundation.Exec

variable {ε σ τ α β : Type} {R : σ → σ → Prop} {S : τ → τ → Prop}

/-- The same outcome, with related stores. -/
def SameOutcome (R : σ → σ → Prop) :
    EStateM.Result (Fault ε) σ α → EStateM.Result (Fault ε) σ α → Prop
  | .ok value store, .ok value' store' => value = value' ∧ R store store'
  | .error fault store, .error fault' store' => fault = fault' ∧ R store store'
  | _, _ => False

/-- Both returned, or both failed. -/
theorem SameOutcome.cases {result result' : EStateM.Result (Fault ε) σ α}
    (same : SameOutcome R result result') :
    (∃ value store store', result = .ok value store ∧ result' = .ok value store' ∧ R store store') ∨
      ∃ fault store store',
        result = .error fault store ∧ result' = .error fault store' ∧ R store store' := by
  cases result with
  | ok value store =>
      cases result' with
      | ok value' store' =>
          obtain ⟨rfl, related⟩ := same
          exact Or.inl ⟨value, store, store', rfl, rfl, related⟩
      | error fault' store' => exact same.elim
  | error fault store =>
      cases result' with
      | ok value' store' => exact same.elim
      | error fault' store' =>
          obtain ⟨rfl, related⟩ := same
          exact Or.inr ⟨fault, store, store', rfl, rfl, related⟩

/-- From related stores, the same outcome and related stores. -/
def Respects (R : σ → σ → Prop) (code : Exec σ ε α) : Prop :=
  ∀ first second, R first second → SameOutcome R (code first) (code second)

namespace Respects

theorem pure (value : α) : Respects R (Pure.pure value : Exec σ ε α) := fun _ _ same => ⟨rfl, same⟩

theorem lift (outcome : Outcome ε α) : Respects R (Exec.lift outcome : Exec σ ε α) := by
  intro first second same
  cases outcome with
  | ok value => exact ⟨rfl, same⟩
  | error fault => exact ⟨rfl, same⟩

theorem bind {code : Exec σ ε α} {next : α → Exec σ ε β} (respects : Respects R code)
    (respectsNext : ∀ value, Respects R (next value)) : Respects R (code >>= next) := by
  intro first second same
  rcases (respects first second same).cases with
    ⟨value, store, store', ran, ran', related⟩ | ⟨fault, store, store', ran, ran', related⟩
  · rw [bind_of_ok ran, bind_of_ok ran']
    exact respectsNext value store store' related
  · rw [bind_of_error ran, bind_of_error ran']
    exact ⟨rfl, related⟩

/-- Code that looks at the store, and then does the same for related stores. -/
theorem read {next : σ → Exec σ ε β} (respectsNext : ∀ store, Respects R (next store))
    (ignores : ∀ first second, R first second → next first = next second) :
    Respects R (get >>= next) := by
  intro first second same
  change SameOutcome R (next first first) (next second second)
  rw [← ignores first second same]
  exact respectsNext first first second same

theorem modifying {change : σ → σ}
    (keeps : ∀ first second, R first second → R (change first) (change second)) :
    Respects R (modify change : Exec σ ε PUnit) :=
  fun first second same => ⟨rfl, keeps first second same⟩

/-- Code on a part of the store. -/
theorem onPart {get : τ → σ} {set : σ → τ → τ} {code : Exec σ ε α} (respects : Respects R code)
    (part : ∀ first second, S first second → R (get first) (get second))
    (whole : ∀ first second part part', S first second → R part part' →
      S (set part first) (set part' second)) : Respects S (Exec.onPart get set code) := by
  intro first second same
  unfold Exec.onPart
  rcases (respects _ _ (part first second same)).cases with
    ⟨value, store, store', ran, ran', related⟩ | ⟨fault, store, store', ran, ran', related⟩
  · rw [ran, ran']
    exact ⟨rfl, whole _ _ _ _ same related⟩
  · rw [ran, ran']
    exact ⟨rfl, whole _ _ _ _ same related⟩

/-- Any code has the same outcome from the same store. -/
theorem ofEq (code : Exec σ ε α) : Respects Eq code := by
  rintro store _ rfl
  cases code store with
  | ok value after => exact ⟨rfl, rfl⟩
  | error fault after => exact ⟨rfl, rfl⟩

end Respects

end Squrust.Foundation.Exec
