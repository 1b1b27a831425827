import Squrust.Foundation.Outcome

/-!
# Streams that are pulled

A stream has a state of its own beside a store it reads from, and a call for the
next item. What such a stream yields (`Yields`) is the items its calls return up to
the first call that returns none, on every store in which the stream reads the same:
reading may change the store (a cache), but keeps what it is asked to keep.

A loop inside a call is a run of silent steps: calls from one state return what
they return from a later one (`Yields.silent`). What is left to show for a stream is
then one step for each item, and one for the end.
-/

set_option autoImplicit false

namespace Squrust.Foundation

variable {σ τ ι ε α β : Type}

namespace Exec

/-! ## A store and a state of one's own -/

/-- One's own state. -/
def own : Exec (σ × τ) ε τ := fun whole => .ok whole.2 whole

def modifyOwn (f : τ → τ) : Exec (σ × τ) ε Unit := fun whole => .ok () (whole.1, f whole.2)

/-- Run code on the store. -/
def onStore (code : Exec σ ε α) : Exec (σ × τ) ε α :=
  onPart Prod.fst (fun store whole => (store, whole.2)) code

/-- Run code whose state is a part of one's own. -/
def onInner (get : τ → ι) (set : ι → τ → τ) (code : Exec (σ × ι) ε α) : Exec (σ × τ) ε α :=
  onPart (fun whole => (whole.1, get whole.2)) (fun part whole => (part.1, set part.2 whole.2)) code

@[simp] theorem own_bind {next : τ → Exec (σ × τ) ε β} {store : σ} {state : τ} :
    (own >>= next) (store, state) = next state (store, state) := rfl

@[simp] theorem modifyOwn_bind {f : τ → τ} {next : Unit → Exec (σ × τ) ε β} {store : σ} {state : τ} :
    (modifyOwn f >>= next) (store, state) = next () (store, f state) := rfl

theorem own_eq_ok {whole after : σ × τ} {state : τ} :
    (own : Exec (σ × τ) ε τ) whole = .ok state after ↔ whole.2 = state ∧ whole = after := by
  simp [own]

theorem modifyOwn_eq_ok {f : τ → τ} {whole after : σ × τ} :
    (modifyOwn f : Exec (σ × τ) ε Unit) whole = .ok () after ↔ (whole.1, f whole.2) = after := by
  simp [modifyOwn]

theorem onStore_eq_ok {code : Exec σ ε α} {value : α} {whole after : σ × τ} :
    (onStore code : Exec (σ × τ) ε α) whole = .ok value after ↔
      ∃ store, code whole.1 = .ok value store ∧ (store, whole.2) = after :=
  onPart_eq_ok

end Exec

namespace Pull

open Exec

/-- A call for the next item. -/
abbrev Next (σ τ ε α : Type) := Nat → Exec (σ × τ) ε (Option α)

/-- From every store that keeps `keeps`, the call returns this and leaves such a
store and this state. -/
def Gives (keeps : σ → Prop) (call : Nat → Exec (σ × τ) ε β) (state : τ) (value : β) (after : τ) :
    Prop :=
  ∀ store, keeps store → ∃ store', keeps store' ∧ Returns call (store, state) value (store', after)

/-- The items that are returned from a state on, up to the first call without one. -/
inductive Yields (keeps : σ → Prop) (next : Next σ τ ε α) : τ → List α → Prop
  | done {state after : τ} (last : Gives keeps next state none after) : Yields keeps next state []
  | item {state after : τ} {item : α} {items : List α} (first : Gives keeps next state (some item) after)
      (rest : Yields keeps next after items) : Yields keeps next state (item :: items)

/-- Take every item there is. -/
def collectAll (next : Next σ τ ε α) : Nat → Exec (σ × τ) ε (List α)
  | 0 => outOfFuel
  | fuel + 1 => do
      match ← next fuel with
      | none => return []
      | some item =>
          let items ← collectAll next fuel
          return item :: items

variable {keeps : σ → Prop} {next : Next σ τ ε α} {state after : τ}

namespace Gives

variable {call : Nat → Exec (σ × τ) ε β} {value : β}

theorem pure (state : τ) (value : β) :
    Gives keeps (fun _ => (return value : Exec (σ × τ) ε β)) state value state :=
  fun store kept => ⟨store, kept, 0, fun _ _ => rfl⟩

/-- Pure code that returns. -/
theorem lift {outcome : Outcome ε β} (returned : outcome = .ok value) (state : τ) :
    Gives keeps (fun _ => (Exec.lift outcome : Exec (σ × τ) ε β)) state value state := by
  rw [returned]
  exact pure state value

theorem of_succ (gives : Gives keeps (fun fuel => call (fuel + 1)) state value after) :
    Gives keeps call state value after := by
  intro store kept
  obtain ⟨store', kept', returns⟩ := gives store kept
  exact ⟨store', kept', returns.of_succ⟩

/-- Calls that come to the same from two states. -/
theorem of_eq {call' : Nat → Exec (σ × τ) ε β} {state' : τ}
    (same : ∀ fuel store, call fuel (store, state) = call' fuel (store, state'))
    (gives : Gives keeps call' state' value after) : Gives keeps call state value after := by
  intro store kept
  obtain ⟨store', kept', returns⟩ := gives store kept
  exact ⟨store', kept', returns.of_eq fun fuel => same fuel store⟩

theorem bind {γ : Type} {later : Nat → β → Exec (σ × τ) ε γ} {between : τ} {result : γ}
    (first : Gives keeps call state value between)
    (second : Gives keeps (fun fuel => later fuel value) between result after) :
    Gives keeps (fun fuel => call fuel >>= later fuel) state result after := by
  intro store kept
  obtain ⟨store', kept', returns⟩ := first store kept
  obtain ⟨store'', kept'', returns'⟩ := second store' kept'
  exact ⟨store'', kept'', returns.bind returns'⟩

theorem modifyOwn {f : τ → τ} {later : Nat → Unit → Exec (σ × τ) ε β}
    (gives : Gives keeps (fun fuel => later fuel ()) (f state) value after) :
    Gives keeps (fun fuel => modifyOwn f >>= later fuel) state value after :=
  of_eq (fun _ _ => rfl) gives

/-- A call of an inner stream changes the inner state. -/
theorem onInner {get : τ → ι} {set : ι → τ → τ} {inner : Nat → Exec (σ × ι) ε β} {reached : ι}
    (gives : Gives keeps inner (get state) value reached) :
    Gives keeps (fun fuel => onInner get set (inner fuel)) state value (set reached state) := by
  intro store kept
  obtain ⟨store', kept', returns⟩ := gives store kept
  refine ⟨store', kept', ?_⟩
  exact @Returns.onPart _ _ _ _ (fun whole : σ × τ => (whole.1, get whole.2))
    (fun part whole => (part.1, set part.2 whole.2)) _ (store, state) _ _ returns

/-- A call that only reads the store. -/
theorem onStore {read : Nat → Exec σ ε β}
    (reads : ∀ store, keeps store → ∃ store', keeps store' ∧ Returns read store value store') :
    Gives keeps (fun fuel => onStore (read fuel)) state value state := by
  intro store kept
  obtain ⟨store', kept', returns⟩ := reads store kept
  refine ⟨store', kept', ?_⟩
  exact @Returns.onPart _ _ _ _ Prod.fst (fun store (whole : σ × τ) => (store, whole.2)) _
    (store, state) _ _ returns

end Gives

namespace Yields

variable {items : List α}

/-- A silent step: what is returned from the one state is returned from the other. -/
theorem silent {state' : τ}
    (step : ∀ value after, Gives keeps next state' value after → Gives keeps next state value after)
    (later : Yields keeps next state' items) : Yields keeps next state items := by
  cases later with
  | done last => exact .done (step _ _ last)
  | item first rest => exact .item (step _ _ first) rest

/-- Collecting a stream gives its items. -/
theorem collect (yields : Yields keeps next state items) :
    ∃ after, Gives keeps (collectAll next) state items after := by
  induction yields with
  | @done state after last =>
      exact ⟨after, .of_succ (.bind last (.pure _ _))⟩
  | @item state after item items first rest ih =>
      obtain ⟨final, gives⟩ := ih
      exact ⟨final, .of_succ (.bind first (.bind gives (.pure _ _)))⟩

end Yields

end Pull

end Squrust.Foundation
