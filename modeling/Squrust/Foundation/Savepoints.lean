import Mathlib.Data.List.Basic

/-!
# Nested transactions

A store whose changes become visible when the outermost transaction ends. Inside
a transaction, savepoints keep the data as they were when they were set; going
back to one undoes what came after it, and the transaction stays open. Releasing
one forgets it and what came after it, and changes nothing unless it is the
outermost.
-/

set_option autoImplicit false

namespace Squrust.Foundation

variable {Name Data : Type}

/-- The beginning of a transaction or a savepoint, with the data at that time. -/
structure Frame (Name Data : Type) where
  /-- None for a transaction that was begun without a savepoint. -/
  name : Option Name
  saved : Data

/-- The data everyone sees, the data of the open transaction, and its frames, the innermost in
front. Without frames no transaction is open. -/
structure Nesting (Name Data : Type) where
  committed : Data
  current : Data
  frames : List (Frame Name Data)

namespace Nesting

def start (data : Data) : Nesting Name Data := ⟨data, data, []⟩

/-- The data of the open transaction. -/
def pending (nesting : Nesting Name Data) : Option Data :=
  match nesting.frames with
  | [] => none
  | _ :: _ => some nesting.current

/-- The changes of the transaction become visible, or are lost. -/
def finish (nesting : Nesting Name Data) (through : Bool) : Nesting Name Data :=
  start (if through then nesting.current else nesting.committed)

def begin_ (nesting : Nesting Name Data) : Nesting Name Data :=
  match nesting.frames with
  | [] => { nesting with frames := [⟨none, nesting.current⟩] }
  | _ :: _ => nesting

def savepoint (nesting : Nesting Name Data) (name : Name) : Nesting Name Data :=
  { nesting with frames := ⟨some name, nesting.current⟩ :: nesting.frames }

/-- The innermost savepoint of a name, with the frames around it. -/
def enclosing [DecidableEq Name] (nesting : Nesting Name Data) (name : Name) :
    List (Frame Name Data) :=
  nesting.frames.dropWhile fun frame => frame.name ≠ some name

/-- Forget a savepoint; the outermost commits. -/
def release [DecidableEq Name] (nesting : Nesting Name Data) (name : Name) (through : Bool) :
    Nesting Name Data :=
  match nesting.enclosing name with
  | [] => nesting
  | [_] => nesting.finish through
  | _ :: outer => { nesting with frames := outer }

/-- Go back to a savepoint, which stays. -/
def rollbackTo [DecidableEq Name] (nesting : Nesting Name Data) (name : Name) : Nesting Name Data :=
  match nesting.enclosing name with
  | [] => nesting
  | frame :: outer => { nesting with current := frame.saved, frames := frame :: outer }

def rollback (nesting : Nesting Name Data) : Nesting Name Data := start nesting.committed

def commit (nesting : Nesting Name Data) (through : Bool) : Nesting Name Data :=
  match nesting.frames with
  | [] => nesting
  | _ :: _ => nesting.finish through

/-- Change the data: in a transaction of its own when none is open, which is lost when the change
or its commit fails. -/
def write (nesting : Nesting Name Data) (effect : Data → Data × Bool) (through : Bool) :
    Nesting Name Data :=
  match nesting.frames with
  | [] => start (if (effect nesting.committed).2 && through then (effect nesting.committed).1
      else nesting.committed)
  | _ :: _ => { nesting with current := (effect nesting.current).1 }

variable {nesting : Nesting Name Data}

theorem pending_eq_none : nesting.pending = none ↔ nesting.frames = [] := by
  unfold pending
  cases nesting.frames with
  | nil => simp
  | cons frame outer => simp

theorem pending_of_ne (inside : nesting.frames ≠ []) : nesting.pending = some nesting.current := by
  unfold pending
  cases frames : nesting.frames with
  | nil => exact absurd frames inside
  | cons frame outer => rfl

theorem enclosing_of_nil [DecidableEq Name] (outside : nesting.frames = []) (name : Name) :
    nesting.enclosing name = [] := by
  rw [enclosing, outside, List.dropWhile_nil]

end Nesting

end Squrust.Foundation
