import Squrust.Foundation.Outcome

/-!
# Calls that do not depend on their budget

A loop that runs on data needs a budget of rounds only so that it is a function.
Such a call is steady: when its budget was enough, a larger one changes nothing
(`SteadyAt`). So a call that returns within every budget from some bound on returns
the same within the budget it was given, or does not return (`Returns.within`).

Code that only looks at a store gives an outcome and leaves a store that looks the
same (`Observes`). Sequences of such code give the sequence of their outcomes.
-/

set_option autoImplicit false

namespace Squrust.Foundation

variable {ε σ τ α β ω : Type}

namespace Exec

/-- The budget is spent, or a larger one gives the same. -/
def SteadyAt (call : Nat → Exec σ ε α) (fuel : Nat) : Prop :=
  ∀ ⦃more : Nat⦄, fuel ≤ more → ∀ store,
    call more store = call fuel store ∨ ∃ after, call fuel store = .error .outOfFuel after

namespace SteadyAt

theorem const (code : Exec σ ε α) (fuel : Nat) : SteadyAt (fun _ => code) fuel := by
  intro more _ store
  exact .inl rfl

theorem zero {call : Nat → Exec σ ε α} (spent : call 0 = outOfFuel) : SteadyAt call 0 := by
  intro more _ store
  exact .inr ⟨store, by rw [spent]; rfl⟩

theorem succ {call : Nat → Exec σ ε α} {fuel : Nat}
    (steady : SteadyAt (fun fuel => call (fuel + 1)) fuel) : SteadyAt call (fuel + 1) := by
  intro more enough store
  obtain ⟨rest, rfl⟩ : ∃ rest, more = rest + 1 := ⟨more - 1, by omega⟩
  exact steady (by omega) store

theorem bind {first : Nat → Exec σ ε α} {next : Nat → α → Exec σ ε β} {fuel : Nat}
    (earlier : SteadyAt first fuel) (later : ∀ value, SteadyAt (fun fuel => next fuel value) fuel) :
    SteadyAt (fun fuel => first fuel >>= next fuel) fuel := by
  intro more enough store
  rcases earlier enough store with same | ⟨after, spent⟩
  · cases run : first fuel store with
    | error fault reached =>
        left
        change (first more >>= next more) store = (first fuel >>= next fuel) store
        rw [bind_of_error run, bind_of_error (same.trans run)]
    | ok value reached =>
        change (first more >>= next more) store = (first fuel >>= next fuel) store ∨
          ∃ after, (first fuel >>= next fuel) store = .error .outOfFuel after
        rw [bind_of_ok run, bind_of_ok (same.trans run)]
        exact later value enough reached
  · exact .inr ⟨after, bind_of_error spent⟩

end SteadyAt

/-- What a call returns within large budgets it returns within its own, if that is
enough. -/
theorem Returns.within {call : Nat → Exec σ ε α} {fuel : Nat} {store after : σ} {value : α}
    (returns : Returns call store value after) (steady : SteadyAt call fuel) :
    call fuel store = .ok value after ∨ ∃ after, call fuel store = .error .outOfFuel after := by
  obtain ⟨bound, settled⟩ := returns
  rcases steady (Nat.le_max_right bound fuel) store with same | spent
  · exact .inl (same.symm.trans (settled _ (Nat.le_max_left bound fuel)))
  · exact .inr spent

/-- A call that answered: with a value or with an error. -/
def Answered (result : EStateM.Result (Fault ε) σ α) : Prop :=
  (∃ value after, result = .ok value after) ∨ ∃ e after, result = .error (.error e) after

theorem answered_ok (value : α) (after : σ) :
    Answered (.ok value after : EStateM.Result (Fault ε) σ α) := Or.inl ⟨value, after, rfl⟩

theorem answered_error (e : ε) (after : σ) :
    Answered (.error (.error e) after : EStateM.Result (Fault ε) σ α) := Or.inr ⟨e, after, rfl⟩

theorem not_answered_panic (reason : String) (after : σ) :
    ¬ Answered (.error (.panic reason) after : EStateM.Result (Fault ε) σ α) := by
  rintro (⟨value, after', same⟩ | ⟨e, after', same⟩) <;> cases same

theorem not_answered_outOfFuel (after : σ) :
    ¬ Answered (.error .outOfFuel after : EStateM.Result (Fault ε) σ α) := by
  rintro (⟨value, after', same⟩ | ⟨e, after', same⟩) <;> cases same

/-- A sequence answers when its first part does, and the next one where the first returns. -/
theorem answered_bind_iff {first : Exec σ ε α} {next : α → Exec σ ε β} {store : σ} :
    Answered ((first >>= next) store) ↔ Answered (first store) ∧
      ∀ value after, first store = .ok value after → Answered (next value after) := by
  cases run : first store with
  | ok value after =>
      rw [bind_of_ok run]
      refine ⟨fun answered => ⟨answered_ok value after, fun value' after' same => ?_⟩,
        fun both => both.2 value after rfl⟩
      obtain ⟨rfl, rfl⟩ := EStateM.Result.ok.inj same
      exact answered
  | error fault after =>
      rw [bind_of_error run]
      refine ⟨fun answered => ⟨?_, fun value' after' same => by cases same⟩, fun both => ?_⟩
      · rcases answered with ⟨value, after', same⟩ | ⟨e, after', same⟩
        · cases same
        · cases same
          exact answered_error e after
      · rcases both.1 with ⟨value, after', same⟩ | ⟨e, after', same⟩
        · cases same
        · cases same
          exact answered_error e after

/-- An answer does not change with a larger budget. -/
theorem SteadyAt.answered {call : Nat → Exec σ ε α} {fuel more : Nat} {store : σ}
    (steady : SteadyAt call fuel) (enough : fuel ≤ more) (answered : Answered (call fuel store)) :
    Answered (call more store) := by
  rcases steady enough store with same | ⟨after, spent⟩
  · rwa [same]
  · rw [spent] at answered
    exact (not_answered_outOfFuel after answered).elim

/-- With every budget from some bound on, the call answers. -/
def Finishes (call : Nat → Exec σ ε α) (store : σ) : Prop :=
  ∃ bound, ∀ fuel, bound ≤ fuel → Answered (call fuel store)

/-- A steady call that answers once answers with every larger budget. -/
theorem finishes_iff_exists {call : Nat → Exec σ ε α} {store : σ} (steady : ∀ fuel, SteadyAt call fuel) :
    Finishes call store ↔ ∃ fuel, Answered (call fuel store) := by
  constructor
  · rintro ⟨bound, answers⟩
    exact ⟨bound, answers bound (Nat.le_refl bound)⟩
  · rintro ⟨fuel, answered⟩
    exact ⟨fuel, fun more enough => (steady fuel).answered enough answered⟩

/-- The code gives this outcome and leaves a store that looks the same, unless its
budget is spent. -/
def Observes (look : σ → ω) (code : Exec σ ε α) (store : σ) (outcome : Outcome ε α) : Prop :=
  (∃ after, code store = lift outcome after ∧ look after = look store) ∨
    ∃ after, code store = .error .outOfFuel after

namespace Observes

variable {look : σ → ω} {store : σ}

theorem lift (outcome : Outcome ε α) : Observes look (Exec.lift outcome) store outcome :=
  .inl ⟨store, rfl, rfl⟩

theorem pure (value : α) : Observes look (return value : Exec σ ε α) store (.ok value) :=
  .inl ⟨store, rfl, rfl⟩

theorem outOfFuel (outcome : Outcome ε α) : Observes look Exec.outOfFuel store outcome :=
  .inr ⟨store, rfl⟩

theorem bind {first : Exec σ ε α} {next : α → Exec σ ε β} {outcome : Outcome ε α}
    {rest : α → Outcome ε β} (earlier : Observes look first store outcome)
    (later : ∀ value after, outcome = .ok value → look after = look store →
      Observes look (next value) after (rest value)) :
    Observes look (first >>= next) store (outcome >>= rest) := by
  rcases earlier with ⟨between, run, same⟩ | ⟨between, spent⟩
  · cases outcome with
    | error fault => exact .inl ⟨between, bind_of_error run, same⟩
    | ok value =>
        have step : (first >>= next) store = next value between := bind_of_ok run
        rcases later value between rfl same with ⟨after, run', same'⟩ | ⟨after, spent'⟩
        · exact .inl ⟨after, step.trans run', same'.trans same⟩
        · exact .inr ⟨after, step.trans spent'⟩
  · exact .inr ⟨between, bind_of_error spent⟩

/-- What comes behind code whose value is known. -/
theorem bind_ok {first : Exec σ ε α} {next : α → Exec σ ε β} {value : α} {outcome : Outcome ε β}
    (earlier : Observes look first store (.ok value))
    (later : ∀ after, look after = look store → Observes look (next value) after outcome) :
    Observes look (first >>= next) store outcome := by
  have whole : Observes look (first >>= next) store ((.ok value : Outcome ε α) >>= fun _ => outcome) := by
    apply earlier.bind
    intro found after known same
    obtain rfl := Except.ok.inj known
    exact later after same
  exact whole

theorem mapError {ε' : Type} (f : ε → ε') {code : Exec σ ε α} {value : α}
    (observes : Observes look code store (.ok value)) :
    Observes look (Exec.mapError f code) store (.ok value) := by
  rcases observes with ⟨after, run, same⟩ | ⟨after, spent⟩
  · exact .inl ⟨after, mapError_eq_ok.mpr run, same⟩
  · exact .inr ⟨after, by simp only [Exec.mapError, spent, Fault.map]⟩

/-- Code that observes has returned or failed with its outcome. -/
theorem of_ok {code : Exec σ ε α} {outcome : Outcome ε α} {value : α} {after : σ}
    (observes : Observes look code store outcome) (run : code store = .ok value after) :
    outcome = .ok value ∧ look after = look store := by
  rcases observes with ⟨reached, run', same⟩ | ⟨reached, spent⟩
  · rw [run] at run'
    obtain ⟨made, rfl⟩ := lift_eq_ok.mp run'.symm
    exact ⟨made, same⟩
  · rw [run] at spent
    cases spent

theorem of_error {code : Exec σ ε α} {outcome : Outcome ε α} {e : ε} {after : σ}
    (observes : Observes look code store outcome) (run : code store = .error (.error e) after) :
    outcome = .error (.error e) ∧ look after = look store := by
  rcases observes with ⟨reached, run', same⟩ | ⟨reached, spent⟩
  · cases outcome with
    | ok value =>
        rw [run] at run'
        cases run'
    | error fault =>
        rw [run] at run'
        obtain ⟨rfl, rfl⟩ := EStateM.Result.error.inj run'
        exact ⟨rfl, same⟩
  · rw [run] at spent
    cases spent

/-- A sequence that failed either failed in code that observes, or behind it. -/
theorem failed_or {first : Exec σ ε α} {next : α → Exec σ ε β} {outcome : Outcome ε α} {e : ε}
    {after : σ} (observes : Observes look first store outcome)
    (failed : (first >>= next) store = .error (.error e) after) :
    look after = look store ∨ ∃ value between, outcome = .ok value ∧
      first store = .ok value between ∧ look between = look store ∧
      next value between = .error (.error e) after := by
  rcases bind_eq_error.mp failed with here | ⟨value, between, run, rest⟩
  · exact .inl (observes.of_error here).2
  · obtain ⟨known, same⟩ := observes.of_ok run
    exact .inr ⟨value, between, known, run, same, rest⟩

end Observes

end Exec

end Squrust.Foundation
