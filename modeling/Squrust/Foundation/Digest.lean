import Mathlib.Data.List.Basic
import Mathlib.Logic.Function.Basic

/-!
# Digests

A digest is a state that takes in one letter after the other. If every letter moves
the states one to one, and different letters lead from one state to different ones,
then a word with one letter changed has another digest (`Separates.foldl_set_ne`).
-/

set_option autoImplicit false

namespace Squrust.Foundation

open Function (Injective)

variable {σ α : Type}

/-- No letter joins two states, and no two letters lead from a state to the same one. -/
structure Separates (step : σ → α → σ) : Prop where
  states : ∀ letter, Injective fun state => step state letter
  letters : ∀ state, Injective (step state)

namespace Separates

variable {step : σ → α → σ}

/-- Different states stay different. -/
theorem foldl_injective (separates : Separates step) (word : List α) :
    Injective fun state => word.foldl step state := by
  induction word with
  | nil => exact fun _ _ same => same
  | cons letter rest ih => exact fun _ _ same => separates.states letter (ih same)

/-- One letter that is changed changes the digest. -/
theorem foldl_set_ne (separates : Separates step) {word : List α} {place : Nat} {letter : α}
    (within : place < word.length) (other : word[place]? ≠ some letter) (state : σ) :
    (word.set place letter).foldl step state ≠ word.foldl step state := by
  induction word generalizing place state with
  | nil => cases within
  | cons first rest ih =>
      cases place with
      | zero =>
          intro same
          have letters := separates.foldl_injective rest same
          exact other (congrArg some (separates.letters state letters).symm)
      | succ place =>
          exact ih (Nat.lt_of_succ_lt_succ within) other (step state first)

end Separates

end Squrust.Foundation
