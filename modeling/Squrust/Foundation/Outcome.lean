import Mathlib.Data.List.Basic
import Mathlib.Tactic.Common

/-!
# Calls that return, fail, panic or run on

A call of a program returns a value, returns an error, panics, or does not
return at all. Loops and recursions whose end depends on the data are given a
budget of rounds; a call whose budget is spent has not returned yet, and the
question whether it ever does is a question about all budgets (`Returns`).

Pure code is an `Outcome`. Code that works on a store is an `Exec`: it keeps
the store it has reached also when it fails, as code that writes through a
shared reference does.

The lemmas are the inversion rules a proof about a run uses: a sequence of two
calls returned exactly when the first returned and the second returned from the
store the first one left (`Exec.bind_eq_ok`).
-/

set_option autoImplicit false

namespace Squrust.Foundation

variable {ε σ τ α β : Type}

/-- Why a call did not return a value. -/
inductive Fault (ε : Type) where
  | error (e : ε)
  | panic (reason : String)
  | outOfFuel
deriving DecidableEq, Repr

/-- The outcome of pure code. -/
abbrev Outcome (ε α : Type) := Except (Fault ε) α

/-- Code on a store of type `σ`. -/
abbrev Exec (σ ε α : Type) := EStateM (Fault ε) σ α

/-- The fault under another type of errors. -/
def Fault.map {ε' : Type} (f : ε → ε') : Fault ε → Fault ε'
  | .error e => .error (f e)
  | .panic reason => .panic reason
  | .outOfFuel => .outOfFuel

namespace Outcome

/-- A slice index out of range, an overflow, an unwrap of nothing. -/
def panic (reason : String) : Outcome ε α := .error (.panic reason)

/-- A call that returned an error. -/
def err (e : ε) : Outcome ε α := .error (.error e)

/-- The value, or a panic when there is none. -/
def orPanic (reason : String) : Option α → Outcome ε α
  | some value => .ok value
  | none => panic reason

/-- The value, or an error when there is none. -/
def orErr (e : ε) : Option α → Outcome ε α
  | some value => .ok value
  | none => err e

@[simp] theorem orPanic_eq_ok {reason : String} {value? : Option α} {value : α} :
    (orPanic reason value? : Outcome ε α) = .ok value ↔ value? = some value := by
  cases value? with
  | none => simp [orPanic, panic]
  | some found => simp [orPanic]

@[simp] theorem orErr_eq_ok {e : ε} {value? : Option α} {value : α} :
    (orErr e value? : Outcome ε α) = .ok value ↔ value? = some value := by
  cases value? with
  | none => simp [orErr, err]
  | some found => simp [orErr]

@[simp] theorem err_ne_ok {e : ε} {value : α} : (err e : Outcome ε α) = .ok value ↔ False := by
  simp [err]

@[simp] theorem panic_ne_ok {reason : String} {value : α} :
    (panic reason : Outcome ε α) = .ok value ↔ False := by
  simp [panic]

@[simp] theorem pure_eq_ok {made value : α} :
    (pure made : Outcome ε α) = .ok value ↔ made = value := by
  simp [pure, Except.pure]

/-- A sequence returned when both parts did. -/
theorem bind_eq_ok {first : Outcome ε α} {next : α → Outcome ε β} {value : β} :
    (first >>= next) = .ok value ↔ ∃ middle, first = .ok middle ∧ next middle = .ok value := by
  cases first with
  | error fault => simp [bind, Except.bind]
  | ok middle => simp [bind, Except.bind]

/-- What is made of a value is returned when the value is. -/
theorem map_eq_ok {make : α → β} {made : Outcome ε α} {value : β} :
    make <$> made = .ok value ↔ ∃ middle, made = .ok middle ∧ make middle = value := by
  cases made with
  | error fault => simp [Functor.map, Except.map]
  | ok middle => simp [Functor.map, Except.map]

/-- What is made of a value is made if the value is. -/
theorem exists_map_eq_ok {make : α → β} {made : Outcome ε α} :
    (∃ value, make <$> made = .ok value) ↔ ∃ value, made = .ok value := by
  constructor
  · rintro ⟨value, run⟩
    obtain ⟨middle, returned, _⟩ := map_eq_ok.mp run
    exact ⟨middle, returned⟩
  · rintro ⟨value, returned⟩
    exact ⟨make value, map_eq_ok.mpr ⟨value, returned, rfl⟩⟩

/-- In front of code that returns. -/
theorem exists_bind_eq_ok {first : Outcome ε α} {next : α → Outcome ε β}
    (returns : ∀ middle, ∃ value, next middle = .ok value) :
    (∃ value, (first >>= next) = .ok value) ↔ ∃ middle, first = .ok middle := by
  constructor
  · rintro ⟨value, run⟩
    obtain ⟨middle, returned, _⟩ := bind_eq_ok.mp run
    exact ⟨middle, returned⟩
  · rintro ⟨middle, returned⟩
    obtain ⟨value, later⟩ := returns middle
    exact ⟨value, bind_eq_ok.mpr ⟨middle, returned, later⟩⟩

/-- Calls on the items of a list that all return. -/
theorem mapM_eq_ok {items : List α} {f : α → Outcome ε β} {g : α → β}
    (each : ∀ item ∈ items, f item = .ok (g item)) : items.mapM f = .ok (items.map g) := by
  induction items with
  | nil => rfl
  | cons item items ih =>
      rw [List.mapM_cons, each item List.mem_cons_self,
        ih fun other later => each other (List.mem_cons_of_mem _ later)]
      rfl

/-- A sequence failed when one of its parts did. -/
theorem bind_eq_error {first : Outcome ε α} {next : α → Outcome ε β} {fault : Fault ε} :
    (first >>= next) = .error fault ↔
      first = .error fault ∨ ∃ middle, first = .ok middle ∧ next middle = .error fault := by
  cases first with
  | error early => simp [bind, Except.bind]
  | ok middle => simp [bind, Except.bind]

theorem mapM_forall₂ {items : List α} {f : α → Outcome ε β} {made : List β}
    (returned : items.mapM f = .ok made) : List.Forall₂ (fun item value => f item = .ok value) items made := by
  induction items generalizing made with
  | nil =>
      obtain rfl := pure_eq_ok.mp returned
      exact .nil
  | cons item items ih =>
      rw [List.mapM_cons] at returned
      obtain ⟨value, first, rest⟩ := bind_eq_ok.mp returned
      obtain ⟨values, others, same⟩ := bind_eq_ok.mp rest
      obtain rfl := pure_eq_ok.mp same
      exact .cons first (ih others)

/-- Calls on the items of a list all returned. -/
theorem each_of_mapM {items : List α} {f : α → Outcome ε β} {made : List β}
    (returned : items.mapM f = .ok made) : ∀ item ∈ items, ∃ value, f item = .ok value := by
  have pairs := mapM_forall₂ returned
  clear returned
  induction pairs with
  | nil =>
      intro item member
      cases member
  | cons first _ ih =>
      intro item member
      rcases List.mem_cons.mp member with rfl | later
      · exact ⟨_, first⟩
      · exact ih item later

/-- Calls that keep something of every item. -/
theorem map_eq_of_mapM {γ : Type} {items made : List α} {f : α → Outcome ε α} {g : α → γ}
    (keeps : ∀ item ∈ items, ∀ value, f item = .ok value → g value = g item)
    (returned : items.mapM f = .ok made) : made.map g = items.map g := by
  have pairs := mapM_forall₂ returned
  clear returned
  induction pairs with
  | nil => rfl
  | @cons item value items made first _ ih =>
      rw [List.map_cons, List.map_cons, keeps item List.mem_cons_self value first,
        ih fun other later => keeps other (List.mem_cons_of_mem _ later)]

/-- Calls on the items of a list failed when one of them did. -/
theorem mapM_eq_error {items : List α} {f : α → Outcome ε β} {fault : Fault ε}
    (failed : items.mapM f = .error fault) : ∃ item ∈ items, f item = .error fault := by
  induction items with
  | nil => cases failed
  | cons item items ih =>
      rw [List.mapM_cons] at failed
      rcases bind_eq_error.mp failed with here | ⟨value, _, rest⟩
      · exact ⟨item, List.mem_cons_self, here⟩
      · rcases bind_eq_error.mp rest with later | ⟨values, _, absurd⟩
        · obtain ⟨other, member, failed'⟩ := ih later
          exact ⟨other, List.mem_cons_of_mem _ member, failed'⟩
        · cases absurd

@[simp] theorem ok_bind (middle : α) (next : α → Outcome ε β) :
    ((.ok middle : Outcome ε α) >>= next) = next middle := rfl

end Outcome

namespace Exec

/-- Pure code leaves the store as it is. -/
def lift (outcome : Outcome ε α) : Exec σ ε α := fun store =>
  match outcome with
  | .ok value => .ok value store
  | .error fault => .error fault store

/-- Stop with an error. -/
def err (e : ε) : Exec σ ε α := lift (Outcome.err e)

/-- The budget of rounds is spent. -/
def outOfFuel : Exec σ ε α := lift (.error .outOfFuel)

@[simp] theorem lift_eq_ok {outcome : Outcome ε α} {value : α} {store after : σ} :
    (lift outcome : Exec σ ε α) store = .ok value after ↔
      outcome = .ok value ∧ store = after := by
  cases outcome with
  | error fault => simp [lift]
  | ok made => simp [lift]

theorem lift_eq_error {outcome : Outcome ε α} {fault : Fault ε} {store after : σ} :
    (lift outcome : Exec σ ε α) store = .error fault after ↔ outcome = .error fault ∧ store = after := by
  cases outcome with
  | error early => simp [lift]
  | ok made => simp [lift]

@[simp] theorem err_ne_ok {e : ε} {value : α} {store after : σ} :
    (err e : Exec σ ε α) store = .ok value after ↔ False := by
  simp [err]

@[simp] theorem outOfFuel_ne_ok {value : α} {store after : σ} :
    (outOfFuel : Exec σ ε α) store = .ok value after ↔ False := by
  simp [outOfFuel]

@[simp] theorem pure_eq_ok {made value : α} {store after : σ} :
    (pure made : Exec σ ε α) store = .ok value after ↔ made = value ∧ store = after := by
  simp [pure, EStateM.pure]

/-- A sequence returned when the first part returned and the second returned
from the store the first one left. -/
theorem bind_eq_ok {first : Exec σ ε α} {next : α → Exec σ ε β} {value : β} {store after : σ} :
    (first >>= next) store = .ok value after ↔
      ∃ middle between, first store = .ok middle between ∧ next middle between = .ok value after := by
  change EStateM.bind first next store = _ ↔ _
  unfold EStateM.bind
  cases first store with
  | error fault reached => simp
  | ok middle between => simp

/-- A first part that returned can be replaced by what it returned. -/
theorem bind_of_ok {first : Exec σ ε α} {next : α → Exec σ ε β} {middle : α} {store between : σ}
    (returned : first store = .ok middle between) :
    (first >>= next) store = next middle between := by
  change EStateM.bind first next store = _
  simp only [EStateM.bind, returned]

/-- A first part that failed ends the sequence. -/
theorem bind_of_error {first : Exec σ ε α} {next : α → Exec σ ε β} {fault : Fault ε}
    {store between : σ} (failed : first store = .error fault between) :
    (first >>= next) store = .error fault between := by
  change EStateM.bind first next store = _
  simp only [EStateM.bind, failed]

/-- A sequence failed when one of its parts did. -/
theorem bind_eq_error {first : Exec σ ε α} {next : α → Exec σ ε β} {fault : Fault ε}
    {store after : σ} :
    (first >>= next) store = .error fault after ↔
      first store = .error fault after ∨
        ∃ middle between, first store = .ok middle between ∧ next middle between = .error fault after := by
  change EStateM.bind first next store = _ ↔ _
  unfold EStateM.bind
  cases first store with
  | error early reached => simp
  | ok middle between => simp

@[simp] theorem lift_ok_bind {made : α} {next : α → Exec σ ε β} :
    ((lift (.ok made) : Exec σ ε α) >>= next) = next made := rfl

/-- Run code on a part of a larger store. -/
def onPart (get : τ → σ) (set : σ → τ → τ) (code : Exec σ ε α) : Exec τ ε α := fun whole =>
  match code (get whole) with
  | .ok value part => .ok value (set part whole)
  | .error fault part => .error fault (set part whole)

theorem onPart_eq_ok {get : τ → σ} {set : σ → τ → τ} {code : Exec σ ε α} {value : α}
    {whole after : τ} :
    onPart get set code whole = .ok value after ↔
      ∃ part, code (get whole) = .ok value part ∧ set part whole = after := by
  unfold onPart
  cases code (get whole) with
  | error fault part => simp
  | ok made part =>
      simp only [EStateM.Result.ok.injEq]
      constructor
      · rintro ⟨rfl, same⟩
        exact ⟨part, ⟨rfl, rfl⟩, same⟩
      · rintro ⟨reached, ⟨rfl, rfl⟩, same⟩
        exact ⟨rfl, same⟩

theorem onPart_eq_error {get : τ → σ} {set : σ → τ → τ} {code : Exec σ ε α} {fault : Fault ε}
    {whole after : τ} :
    onPart get set code whole = .error fault after ↔
      ∃ part, code (get whole) = .error fault part ∧ set part whole = after := by
  unfold onPart
  cases code (get whole) with
  | ok made part => simp
  | error early part =>
      simp only [EStateM.Result.error.injEq]
      constructor
      · rintro ⟨rfl, same⟩
        exact ⟨part, ⟨rfl, rfl⟩, same⟩
      · rintro ⟨reached, ⟨rfl, rfl⟩, same⟩
        exact ⟨rfl, same⟩

/-- The same code, with errors of another type. -/
def mapError {ε' : Type} (f : ε → ε') (code : Exec σ ε α) : Exec σ ε' α := fun store =>
  match code store with
  | .ok value after => .ok value after
  | .error fault after => .error (fault.map f) after

@[simp] theorem mapError_eq_ok {ε' : Type} {f : ε → ε'} {code : Exec σ ε α} {value : α}
    {store after : σ} :
    mapError f code store = .ok value after ↔ code store = .ok value after := by
  unfold mapError
  cases code store with
  | error fault reached => simp
  | ok made reached => simp

/-- A fault under another type of errors was one before. -/
theorem mapError_eq_error {ε' : Type} {f : ε → ε'} {code : Exec σ ε α} {fault : Fault ε'}
    {store after : σ} :
    mapError f code store = .error fault after ↔
      ∃ fault', code store = .error fault' after ∧ fault'.map f = fault := by
  unfold mapError
  cases code store with
  | ok value reached => simp
  | error fault' reached =>
      simp only [EStateM.Result.error.injEq]
      constructor
      · rintro ⟨same, rfl⟩
        exact ⟨fault', ⟨rfl, rfl⟩, same⟩
      · rintro ⟨_, ⟨rfl, rfl⟩, same⟩
        exact ⟨same, rfl⟩

/-- The store a call leaves behind, whether it returned or failed. -/
def reached (code : Exec σ ε α) (store : σ) : σ :=
  match code store with
  | .ok _ after => after
  | .error _ after => after

theorem reached_of_ok {code : Exec σ ε α} {value : α} {store after : σ}
    (returned : code store = .ok value after) : reached code store = after := by
  simp only [reached, returned]

theorem reached_of_error {code : Exec σ ε α} {fault : Fault ε} {store after : σ}
    (failed : code store = .error fault after) : reached code store = after := by
  simp only [reached, failed]

/-- Does the call return, and does the test hold of what it returned and left? -/
def leaves (code : Exec σ ε α) (store : σ) (test : α → σ → Bool) : Bool :=
  match code store with
  | .ok value after => test value after
  | .error _ _ => false

theorem exists_of_leaves {code : Exec σ ε α} {store : σ} {test : α → σ → Bool}
    (holds : leaves code store test = true) :
    ∃ value after, code store = .ok value after ∧ test value after = true := by
  unfold leaves at holds
  split at holds
  · next value after run => exact ⟨value, after, run, holds⟩
  · cases holds

/-- The same for a call that returns an error. -/
def stops (code : Exec σ ε α) (store : σ) (test : ε → σ → Bool) : Bool :=
  match code store with
  | .error (.error e) after => test e after
  | _ => false

theorem exists_of_stops {code : Exec σ ε α} {store : σ} {test : ε → σ → Bool}
    (holds : stops code store test = true) :
    ∃ e after, code store = .error (.error e) after ∧ test e after = true := by
  unfold stops at holds
  split at holds
  · next e after run => exact ⟨e, after, run, holds⟩
  · cases holds

/-- With every budget from some bound on, the call returns this value and
leaves this store. -/
def Returns (call : Nat → Exec σ ε α) (store : σ) (value : α) (after : σ) : Prop :=
  ∃ bound, ∀ fuel, bound ≤ fuel → call fuel store = .ok value after

theorem Returns.of_succ {call : Nat → Exec σ ε α} {store after : σ} {value : α}
    (returns : Returns (fun fuel => call (fuel + 1)) store value after) :
    Returns call store value after := by
  obtain ⟨bound, settled⟩ := returns
  refine ⟨bound + 1, fun fuel enough => ?_⟩
  obtain ⟨rest, rfl⟩ : ∃ rest, fuel = rest + 1 := ⟨fuel - 1, by omega⟩
  exact settled rest (by omega)

/-- A call returns one value. -/
theorem Returns.unique {call : Nat → Exec σ ε α} {store first second : σ} {value other : α}
    (returns : Returns call store value first) (returns' : Returns call store other second) :
    value = other := by
  obtain ⟨bound, settled⟩ := returns
  obtain ⟨bound', settled'⟩ := returns'
  have same := (settled _ (Nat.le_max_left bound bound')).symm.trans
    (settled' _ (Nat.le_max_right bound bound'))
  exact (EStateM.Result.ok.inj same).1

theorem Returns.of_eq {call call' : Nat → Exec σ ε α} {store store' after : σ} {value : α}
    (same : ∀ fuel, call fuel store = call' fuel store')
    (returns : Returns call' store' value after) : Returns call store value after := by
  obtain ⟨bound, settled⟩ := returns
  exact ⟨bound, fun fuel enough => (same fuel).trans (settled fuel enough)⟩

theorem Returns.mapError {ε' : Type} {f : ε → ε'} {call : Nat → Exec σ ε α} {store after : σ}
    {value : α} (returns : Returns call store value after) :
    Returns (fun fuel => mapError f (call fuel)) store value after := by
  obtain ⟨bound, settled⟩ := returns
  exact ⟨bound, fun fuel enough => mapError_eq_ok.mpr (settled fuel enough)⟩

theorem Returns.onPart {get : τ → σ} {set : σ → τ → τ} {call : Nat → Exec σ ε α} {whole : τ}
    {part : σ} {value : α} (returns : Returns call (get whole) value part) :
    Returns (fun fuel => onPart get set (call fuel)) whole value (set part whole) := by
  obtain ⟨bound, settled⟩ := returns
  exact ⟨bound, fun fuel enough => onPart_eq_ok.mpr ⟨part, settled fuel enough, rfl⟩⟩

theorem Returns.bind {first : Nat → Exec σ ε α} {next : Nat → α → Exec σ ε β} {store between after : σ}
    {middle : α} {value : β} (earlier : Returns first store middle between)
    (later : Returns (fun fuel => next fuel middle) between value after) :
    Returns (fun fuel => first fuel >>= next fuel) store value after := by
  obtain ⟨bound, settled⟩ := earlier
  obtain ⟨bound', settled'⟩ := later
  refine ⟨max bound bound', fun fuel enough => ?_⟩
  change (first fuel >>= next fuel) store = _
  rw [bind_of_ok (settled fuel (by omega))]
  exact settled' fuel (by omega)

end Exec

end Squrust.Foundation
