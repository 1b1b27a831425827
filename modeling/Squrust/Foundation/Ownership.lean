import Mathlib.Data.List.Basic
import Mathlib.Tactic.Common

/-!
# Owning cells of a store

A store gives out cells. A cell is free, given out but not yet written, or it
holds a content (`Slot`). A structure kept in the store owns some of its cells.

`Replaces view view' old new` says what an operation did to the store, seen
from such a structure: it owned the cells `old`, it now owns `new`; what it
gave up is free, what it took was free, and every other cell is as it was. Two
operations in a row compose (`Replaces.trans`), and cells that the structure
owns besides the ones an operation works on can be added on both sides
(`Replaces.frame`).
-/

set_option autoImplicit false

namespace Squrust.Foundation

variable {P α : Type}

/-- The state of one cell of a store. -/
inductive Slot (α : Type) where
  | free
  | reserved
  | holds (content : α)
deriving DecidableEq, Repr

/-- The cells of a store. -/
abbrev View (P α : Type) := P → Slot α

/-- A store with one cell changed. -/
def View.set [DecidableEq P] (view : View P α) (cell : P) (slot : Slot α) : View P α :=
  fun other => if other = cell then slot else view other

@[simp] theorem View.set_self [DecidableEq P] (view : View P α) (cell : P) (slot : Slot α) :
    view.set cell slot cell = slot := by
  simp [View.set]

theorem View.set_of_ne [DecidableEq P] {view : View P α} {cell other : P} {slot : Slot α}
    (different : other ≠ cell) : view.set cell slot other = view other := by
  simp [View.set, different]

/-- The owner of the cells `old` now owns the cells `new`, and nothing else
changed. -/
structure Replaces (view view' : View P α) (old new : List P) : Prop where
  fresh : ∀ cell ∈ new, cell ∉ old → view cell = .free
  released : ∀ cell ∈ old, cell ∉ new → view' cell = .free
  held : ∀ cell ∈ new, view' cell ≠ .free
  others : ∀ cell, cell ∉ old → cell ∉ new → view' cell = view cell

namespace Replaces

variable {view view' view'' : View P α} {old new middle extra : List P}

theorem refl (live : ∀ cell ∈ old, view cell ≠ .free) : Replaces view view old old where
  fresh _ member absent := absurd member absent
  released _ member absent := absurd member absent
  held := live
  others _ _ _ := rfl

theorem trans (first : Replaces view view' old middle) (second : Replaces view' view'' middle new) :
    Replaces view view'' old new where
  fresh cell member absent := by
    by_cases between : cell ∈ middle
    · exact first.fresh cell between absent
    · rw [← first.others cell absent between]
      exact second.fresh cell member between
  released cell member absent := by
    by_cases between : cell ∈ middle
    · exact second.released cell between absent
    · rw [second.others cell between absent]
      exact first.released cell member between
  held := second.held
  others cell notOld notNew := by
    by_cases between : cell ∈ middle
    · rw [second.released cell between notNew, first.fresh cell between notOld]
    · rw [second.others cell between notNew, first.others cell notOld between]

/-- A cell in use that the owner does not own is not taken and keeps its
content. -/
theorem kept (replaces : Replaces view view' old new) {cell : P} (live : view cell ≠ .free)
    (notOld : cell ∉ old) : cell ∉ new ∧ view' cell = view cell := by
  have notNew : cell ∉ new := fun member => live (replaces.fresh cell member notOld)
  exact ⟨notNew, replaces.others cell notOld notNew⟩

/-- Further cells of the owner stay with it. -/
theorem frame (replaces : Replaces view view' old new)
    (live : ∀ cell ∈ extra, view cell ≠ .free) (apart : ∀ cell ∈ extra, cell ∉ old) :
    Replaces view view' (extra ++ old) (extra ++ new) where
  fresh cell member absent := by
    rw [List.mem_append, not_or] at absent
    rcases List.mem_append.mp member with inExtra | inNew
    · exact absurd inExtra absent.1
    · exact replaces.fresh cell inNew absent.2
  released cell member absent := by
    rw [List.mem_append, not_or] at absent
    rcases List.mem_append.mp member with inExtra | inOld
    · exact absurd inExtra absent.1
    · exact replaces.released cell inOld absent.2
  held cell member := by
    rcases List.mem_append.mp member with inExtra | inNew
    · rw [(replaces.kept (live cell inExtra) (apart cell inExtra)).2]
      exact live cell inExtra
    · exact replaces.held cell inNew
  others cell notOld notNew := by
    rw [List.mem_append, not_or] at notOld notNew
    exact replaces.others cell notOld.2 notNew.2

/-- The cells that stay are none of the new ones. -/
theorem nodup_frame (replaces : Replaces view view' old new) (distinct : extra.Nodup)
    (distinct' : new.Nodup) (live : ∀ cell ∈ extra, view cell ≠ .free)
    (apart : ∀ cell ∈ extra, cell ∉ old) : (extra ++ new).Nodup :=
  List.nodup_append.mpr ⟨distinct, distinct', fun cell member _ inNew same =>
    (replaces.kept (live cell member) (apart cell member)).1 (same ▸ inNew)⟩

/-- Which cells are owned matters, not in which order they are listed. -/
theorem congr {old' new' : List P} (replaces : Replaces view view' old new)
    (sameOld : ∀ cell, cell ∈ old' ↔ cell ∈ old) (sameNew : ∀ cell, cell ∈ new' ↔ cell ∈ new) :
    Replaces view view' old' new' where
  fresh cell member absent :=
    replaces.fresh cell ((sameNew cell).mp member) (mt (sameOld cell).mpr absent)
  released cell member absent :=
    replaces.released cell ((sameOld cell).mp member) (mt (sameNew cell).mpr absent)
  held cell member := replaces.held cell ((sameNew cell).mp member)
  others cell notOld notNew :=
    replaces.others cell (mt (sameOld cell).mpr notOld) (mt (sameNew cell).mpr notNew)

theorem perm {old' new' : List P} (replaces : Replaces view view' old new)
    (sameOld : old'.Perm old) (sameNew : new'.Perm new) : Replaces view view' old' new' :=
  replaces.congr (fun _ => sameOld.mem_iff) fun _ => sameNew.mem_iff

/-- A change of some of the owned cells is a change of the owned cells. -/
theorem within {part whole : List P} (replaces : Replaces view view' part part)
    (inside : ∀ cell ∈ part, cell ∈ whole) (live : ∀ cell ∈ whole, view cell ≠ .free) :
    Replaces view view' whole whole where
  fresh _ member absent := absurd member absent
  released _ member absent := absurd member absent
  held cell member := by
    by_cases changed : cell ∈ part
    · exact replaces.held cell changed
    · rw [replaces.others cell changed changed]
      exact live cell member
  others cell absent _ := by
    have unchanged : cell ∉ part := fun changed => absent (inside cell changed)
    exact replaces.others cell unchanged unchanged

theorem frame_right (replaces : Replaces view view' old new)
    (live : ∀ cell ∈ extra, view cell ≠ .free) (apart : ∀ cell ∈ extra, cell ∉ old) :
    Replaces view view' (old ++ extra) (new ++ extra) :=
  (replaces.frame live apart).congr (fun cell => by simp only [List.mem_append, or_comm])
    fun cell => by simp only [List.mem_append, or_comm]

theorem frame_cell {cell : P} (replaces : Replaces view view' old new) (live : view cell ≠ .free)
    (apart : cell ∉ old) : Replaces view view' (cell :: old) (cell :: new) := by
  have framed : Replaces view view' ([cell] ++ old) ([cell] ++ new) :=
    replaces.frame (by simpa using live) (by simpa using apart)
  exact framed

variable [DecidableEq P] {cell : P}

/-- Taking a free cell. -/
theorem take {slot : Slot α} (free : view cell = .free) (used : slot ≠ .free) :
    Replaces view (view.set cell slot) [] [cell] where
  fresh other member _ := by rw [List.mem_singleton.mp member, free]
  released other member _ := absurd member (List.not_mem_nil)
  held other member := by
    rw [List.mem_singleton.mp member, View.set_self]
    exact used
  others other _ notNew := View.set_of_ne (by simpa using notNew)

/-- Writing an owned cell. -/
theorem write {slot : Slot α} (used : slot ≠ .free) :
    Replaces view (view.set cell slot) [cell] [cell] where
  fresh other member absent := absurd member absent
  released other member absent := absurd member absent
  held other member := by
    rw [List.mem_singleton.mp member, View.set_self]
    exact used
  others other notOld _ := View.set_of_ne (by simpa using notOld)

/-- Giving a cell back. -/
theorem give : Replaces view (view.set cell .free) [cell] [] where
  fresh other member _ := absurd member (List.not_mem_nil)
  released other member _ := by rw [List.mem_singleton.mp member, View.set_self]
  held other member := absurd member (List.not_mem_nil)
  others other notOld _ := View.set_of_ne (by simpa using notOld)

end Replaces

end Squrust.Foundation
