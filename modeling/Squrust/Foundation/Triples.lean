import Squrust.Foundation.Pull

/-!
# Triples

What code ensures: from a store with one property it returns a value and leaves a store with
another, or it fails with a fault that is allowed. Nothing is said of code that runs on: its budget
is spent, which is a fault like others.

A triple for a sequence is made of those for its parts (`Ensures.bind`). A stream is kept by an
invariant of its own state when every call for the next item ensures it (`Pull.Kept`); then so
does collecting the items (`Pull.Kept.collectAll`).
-/

set_option autoImplicit false

namespace Squrust.Foundation

variable {σ τ ι ε α β : Type}

/-- The value of pure code has a property, or its fault is allowed. -/
def Outcome.Ensures (allowed : Fault ε → Prop) (outcome : Outcome ε α) (post : α → Prop) : Prop :=
  match outcome with
  | .ok value => post value
  | .error fault => allowed fault

namespace Outcome.Ensures

variable {allowed : Fault ε → Prop}

/-- With every fault allowed, what is ensured is what holds of the value that is returned. -/
theorem any_iff {outcome : Outcome ε α} {post : α → Prop} :
    outcome.Ensures (fun _ => True) post ↔ ∀ value, outcome = .ok value → post value := by
  cases outcome with
  | ok value => exact ⟨fun holds _ same => Except.ok.inj same ▸ holds, fun holds => holds value rfl⟩
  | error fault => exact iff_of_true trivial fun value same => by cases same

/-- With every fault allowed, any code ensures nothing. -/
theorem any (outcome : Outcome ε α) : outcome.Ensures (fun _ => True) fun _ => True :=
  any_iff.mpr fun _ _ => trivial

theorem bind {first : Outcome ε α} {next : α → Outcome ε β} {mid : α → Prop} {post : β → Prop}
    (earlier : first.Ensures allowed mid) (later : ∀ value, mid value → (next value).Ensures allowed post) :
    Outcome.Ensures allowed (first >>= next) post := by
  cases first with
  | ok value => exact later value earlier
  | error fault => exact earlier

theorem mono {outcome : Outcome ε α} {mid post : α → Prop} (ensures : outcome.Ensures allowed mid)
    (stronger : ∀ value, mid value → post value) : outcome.Ensures allowed post := by
  cases outcome with
  | ok value => exact stronger value ensures
  | error fault => exact ensures

theorem ite {c : Prop} [Decidable c] {first second : Outcome ε α} {post : α → Prop}
    (holds : first.Ensures allowed post) (fails : second.Ensures allowed post) :
    (if c then first else second).Ensures allowed post := by
  split
  · exact holds
  · exact fails

theorem orErr {e : ε} {value? : Option α} {post : α → Prop} (absent : value? = none → allowed (.error e))
    (present : ∀ value ∈ value?, post value) : (Outcome.orErr e value?).Ensures allowed post := by
  cases value? with
  | some value => exact present value rfl
  | none => exact absent rfl

theorem orPanic {reason : String} {value? : Option α} {post : α → Prop} (panics : allowed (.panic reason))
    (present : ∀ value ∈ value?, post value) :
    (Outcome.orPanic reason value? : Outcome ε α).Ensures allowed post := by
  cases value? with
  | some value => exact present value rfl
  | none => exact panics

/-- Calls on the items of a list give as many values. -/
theorem mapM {items : List α} {f : α → Outcome ε β} {post : β → Prop}
    (each : ∀ item ∈ items, (f item).Ensures allowed post) :
    (items.mapM f).Ensures allowed fun made =>
      made.length = items.length ∧ ∀ value ∈ made, post value := by
  induction items with
  | nil => exact ⟨rfl, fun value none => by cases none⟩
  | cons item items ih =>
      rw [List.mapM_cons]
      refine (each item List.mem_cons_self).bind fun value first => ?_
      refine (ih fun other later => each other (List.mem_cons_of_mem _ later)).bind fun made rest => ?_
      exact ⟨congrArg Nat.succ rest.1, List.forall_mem_cons.mpr ⟨first, rest.2⟩⟩

/-- A fold keeps what each of its steps keeps. -/
theorem foldlM {items : List α} {f : β → α → Outcome ε β} {inv : β → Prop}
    (each : ∀ made, inv made → ∀ item ∈ items, (f made item).Ensures allowed inv) {init : β} (holds : inv init) :
    (items.foldlM f init).Ensures allowed inv := by
  induction items generalizing init with
  | nil => exact holds
  | cons item items ih =>
      rw [List.foldlM_cons]
      refine (each init holds item List.mem_cons_self).bind fun made kept => ?_
      exact ih (fun made kept other later => each made kept other (List.mem_cons_of_mem _ later)) kept

end Outcome.Ensures

/-! ## Approximation -/

namespace Outcome

/-- Where the first code has a value, the second has it too. -/
def Below (first second : Outcome ε α) : Prop := ∀ value, first = .ok value → second = .ok value

theorem Below.refl (outcome : Outcome ε α) : outcome.Below outcome := fun _ same => same

theorem Below.bind {first second : Outcome ε α} {next next' : α → Outcome ε β} (below : first.Below second)
    (later : ∀ value, (next value).Below (next' value)) :
    Outcome.Below (first >>= next) (second >>= next') := by
  intro made run
  obtain ⟨value, here, rest⟩ := Outcome.bind_eq_ok.mp run
  rw [below value here, Outcome.ok_bind]
  exact later value made rest

end Outcome

namespace Exec

/-- From a state, whatever the store is: a value and a state with a property, or a fault that is
allowed. -/
def Ensures (allowed : Fault ε → Prop) (state : τ) (code : Exec (σ × τ) ε α) (post : α → τ → Prop) : Prop :=
  ∀ store,
    match code (store, state) with
    | .ok value after => post value after.2
    | .error fault _ => allowed fault

namespace Ensures

variable {allowed : Fault ε → Prop} {state : τ}

theorem pure {value : α} {post : α → τ → Prop} (holds : post value state) :
    Ensures allowed state (Pure.pure value : Exec (σ × τ) ε α) post :=
  fun _ => holds

theorem lift {outcome : Outcome ε α} {post : α → τ → Prop}
    (ensures : outcome.Ensures allowed fun value => post value state) :
    Ensures allowed state (Exec.lift outcome : Exec (σ × τ) ε α) post := by
  intro store
  cases outcome with
  | ok value => exact ensures
  | error fault => exact ensures

theorem outOfFuel {post : α → τ → Prop} (spent : allowed .outOfFuel) :
    Ensures allowed state (Exec.outOfFuel : Exec (σ × τ) ε α) post :=
  fun _ => spent

theorem bind {first : Exec (σ × τ) ε α} {next : α → Exec (σ × τ) ε β} {mid : α → τ → Prop}
    {post : β → τ → Prop} (earlier : Ensures allowed state first mid)
    (later : ∀ value between, mid value between → Ensures allowed between (next value) post) :
    Ensures allowed state (first >>= next) post := by
  intro store
  have ran := earlier store
  cases run : first (store, state) with
  | ok value between =>
      rw [run] at ran
      rw [bind_of_ok run]
      exact later value between.2 ran between.1
  | error fault between =>
      rw [run] at ran
      rw [bind_of_error run]
      exact ran

/-- Code that begins with pure code. -/
theorem lifted {outcome : Outcome ε α} {next : α → Exec (σ × τ) ε β} {mid : α → Prop} {post : β → τ → Prop}
    (earlier : outcome.Ensures allowed mid) (later : ∀ value, mid value → Ensures allowed state (next value) post) :
    Ensures allowed state (Exec.lift outcome >>= next) post := by
  intro store
  cases outcome with
  | ok value => exact later value earlier store
  | error fault => exact earlier

/-- Code that begins with a look at the state. -/
theorem own {next : τ → Exec (σ × τ) ε β} {post : β → τ → Prop} (later : Ensures allowed state (next state) post) :
    Ensures allowed state (own >>= next) post :=
  later

/-- Code that begins with a change of the state. -/
theorem modifyOwn {f : τ → τ} {next : Unit → Exec (σ × τ) ε β} {post : β → τ → Prop}
    (later : Ensures allowed (f state) (next ()) post) : Ensures allowed state (modifyOwn f >>= next) post :=
  later

/-- Code that ends with a change of the state. -/
theorem changed {f : τ → τ} {post : Unit → τ → Prop} (holds : post () (f state)) :
    Ensures allowed state (Exec.modifyOwn f : Exec (σ × τ) ε Unit) post :=
  fun _ => holds

/-- Code on the store leaves the state as it is. -/
theorem onStore {code : Exec σ ε α} {post : α → τ → Prop}
    (returns : ∀ store value after, code store = .ok value after → post value state)
    (fails : ∀ store fault after, code store = .error fault after → allowed fault) :
    Ensures allowed state (onStore code) post := by
  intro store
  rw [Exec.onStore, onPart]
  cases run : code store with
  | ok value after => exact returns store value after run
  | error fault after => exact fails store fault after run

/-- Code on a part of the state. -/
theorem onInner {get : τ → ι} {set : ι → τ → τ} {code : Exec (σ × ι) ε α} {mid : α → ι → Prop}
    {post : α → τ → Prop} (ensures : Ensures allowed (get state) code mid)
    (kept : ∀ value inner, mid value inner → post value (set inner state)) :
    Ensures allowed state (onInner get set code) post := by
  intro store
  have ran := ensures store
  rw [Exec.onInner, onPart]
  cases run : code (store, get state) with
  | ok value after =>
      rw [run] at ran
      exact kept value after.2 ran
  | error fault after =>
      rw [run] at ran
      exact ran

end Ensures

end Exec

namespace Pull

open Exec (Ensures)

/-- Every call for the next item keeps the invariant and gives a good one, or fails with a
fault that is allowed. -/
def Kept (allowed : Fault ε → Prop) (next : Next σ τ ε α) (inv : τ → Prop) (good : α → Prop) : Prop :=
  ∀ fuel state, inv state →
    Ensures allowed state (next fuel) fun item after => inv after ∧ ∀ value ∈ item, good value

theorem Kept.collectAll {allowed : Fault ε → Prop} {next : Next σ τ ε α} {inv : τ → Prop} {good : α → Prop}
    (spent : allowed .outOfFuel) (kept : Kept allowed next inv good) (fuel : Nat) {state : τ}
    (holds : inv state) :
    Ensures allowed state (Pull.collectAll next fuel) fun items after => inv after ∧ ∀ value ∈ items, good value := by
  induction fuel generalizing state with
  | zero => exact .outOfFuel spent
  | succ fuel ih =>
      refine (kept fuel state holds).bind fun item between given => ?_
      cases item with
      | none => exact .pure ⟨given.1, fun value none => by cases none⟩
      | some value =>
          refine (ih given.1).bind fun items after rest => ?_
          exact .pure ⟨rest.1, List.forall_mem_cons.mpr ⟨given.2 value rfl, rest.2⟩⟩

end Pull

end Squrust.Foundation
