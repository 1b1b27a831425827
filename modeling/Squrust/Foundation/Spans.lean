import Squrust.Foundation.SortedEntries
import Mathlib.Order.WithBot
import Mathlib.Tactic.Order

/-!
# Separators of a search tree

A search tree cuts the line of keys into ranges. A subtree is responsible for
the keys above one bound and up to another one (`InRange`), and the children of
a node split the range of the node at the separators: the keys of a child are
above the separator before it and at most the separator after it.

`Spans P low children high entries cells` says that the children, each with the
separator after it, cover the range from `low` to `high`, that child by child
they satisfy `P` in their own ranges, and that together they hold `entries` and
own `cells`. It is parametric in the relation `P` of one child, so it serves
every level of the tree and every kind of content.

A key belongs to one child: the first whose separator is not below the key
(`Spans.route`). What the children before and after it hold lies below and
above the key, so an operation on the map is an operation on that child's
entries.
-/

set_option autoImplicit false

namespace Squrust.Foundation

variable {K V C R : Type} [LinearOrder K]

/-- The end of a range of keys: a key, or no bound on that side. -/
abbrev Bound (K : Type) := WithBot (WithTop K)

/-- The bound at a key. -/
def Bound.key (key : K) : Bound K := ((key : WithTop K) : WithBot (WithTop K))

@[simp] theorem Bound.key_lt_key {first second : K} :
    Bound.key first < Bound.key second ↔ first < second := by
  simp [Bound.key]

@[simp] theorem Bound.key_le_key {first second : K} :
    Bound.key first ≤ Bound.key second ↔ first ≤ second := by
  simp [Bound.key]

@[simp] theorem Bound.bot_lt_key (key : K) : (⊥ : Bound K) < Bound.key key := by
  simp [Bound.key]

@[simp] theorem Bound.key_le_top (key : K) : Bound.key key ≤ (⊤ : Bound K) := le_top

theorem Bound.key_lt_top (key : K) : Bound.key key < (⊤ : Bound K) :=
  WithBot.coe_lt_coe.mpr (WithTop.coe_lt_top key)

/-- A key of the range: above the lower bound and at most the upper one. -/
def InRange (low high : Bound K) (key : K) : Prop := low < Bound.key key ∧ Bound.key key ≤ high

/-- One relation for the children of a node: the range, the child, the entries
it holds and the cells it owns. -/
abbrev ChildSpec (K V C R : Type) :=
  Bound K → Bound K → C → List (K × V) → List R → Prop

/-- The children hold ascending entries of their own, non-empty ranges. -/
structure Ranged (P : ChildSpec K V C R) : Prop where
  lt : ∀ {low high child entries cells}, P low high child entries cells → low < high
  inRange : ∀ {low high child entries cells}, P low high child entries cells →
    ∀ entry ∈ entries, InRange low high entry.1
  ascending : ∀ {low high child entries cells}, P low high child entries cells → Ascending entries

/-- Children and the separators after them, from one bound to another. -/
inductive Spans (P : ChildSpec K V C R) :
    Bound K → List (C × K) → Bound K → List (K × V) → List R → Prop where
  | nil (low : Bound K) : Spans P low [] low [] []
  | cons {low high : Bound K} {child : C} {separator : K} {children : List (C × K)}
      {entries entries' : List (K × V)} {cells cells' : List R}
      (first : P low (Bound.key separator) child entries cells)
      (rest : Spans P (Bound.key separator) children high entries' cells') :
      Spans P low ((child, separator) :: children) high (entries ++ entries') (cells ++ cells')

namespace Spans

variable {P Q : ChildSpec K V C R} {low middle high : Bound K} {children children' : List (C × K)}
  {entries entries' : List (K × V)} {cells cells' : List R}

omit [LinearOrder K] in
theorem append (left : Spans P low children middle entries cells)
    (right : Spans P middle children' high entries' cells') :
    Spans P low (children ++ children') high (entries ++ entries') (cells ++ cells') := by
  induction left with
  | nil low => exact right
  | cons first rest ih =>
      rw [List.append_assoc, List.append_assoc]
      exact .cons first (ih right)

omit [LinearOrder K] in
/-- Children can be cut at any place. -/
theorem split {whole : List (K × V)} {owned : List R}
    (spans : Spans P low (children ++ children') high whole owned) :
    ∃ middle entries entries' cells cells', Spans P low children middle entries cells ∧
      Spans P middle children' high entries' cells' ∧
      whole = entries ++ entries' ∧ owned = cells ++ cells' := by
  induction children generalizing low whole owned with
  | nil => exact ⟨low, [], whole, [], owned, .nil low, spans, rfl, rfl⟩
  | cons head tail ih =>
      cases spans with
      | cons first rest =>
        obtain ⟨middle, entries, entries', cells, cells', left, right, rfl, rfl⟩ := ih rest
        exact ⟨middle, _, _, _, _, .cons first left, right, by simp, by simp⟩

omit [LinearOrder K] in
/-- A relation that is implied child by child is implied for all of them; only
children that own cells of the node matter. -/
theorem imp (spans : Spans P low children high entries cells)
    (implies : ∀ {low high child entries owned}, (∀ cell ∈ owned, cell ∈ cells) →
      P low high child entries owned → Q low high child entries owned) :
    Spans Q low children high entries cells := by
  induction spans with
  | nil low => exact .nil low
  | cons first rest ih =>
      refine .cons (implies (fun cell member => List.mem_append_left _ member) first) (ih ?_)
      intro low high child entries owned within
      exact implies fun cell member => List.mem_append_right _ (within cell member)

omit [LinearOrder K] in
/-- What holds of the cells of every child holds of all cells. -/
theorem forall_cells {good : R → Prop} (spans : Spans P low children high entries cells)
    (each : ∀ {low high child entries owned}, P low high child entries owned →
      ∀ cell ∈ owned, good cell) : ∀ cell ∈ cells, good cell := by
  induction spans with
  | nil low => simp
  | cons first rest ih =>
      intro cell member
      rcases List.mem_append.mp member with here | there
      · exact each first cell here
      · exact ih cell there

theorem le (ranged : Ranged P) (spans : Spans P low children high entries cells) : low ≤ high := by
  induction spans with
  | nil low => exact le_rfl
  | cons first rest ih => exact (ranged.lt first).le.trans ih

theorem inRange (ranged : Ranged P) (spans : Spans P low children high entries cells) :
    ∀ entry ∈ entries, InRange low high entry.1 := by
  induction spans with
  | nil low => simp
  | cons first rest ih =>
      intro entry member
      rcases List.mem_append.mp member with here | there
      · exact ⟨(ranged.inRange first entry here).1,
          (ranged.inRange first entry here).2.trans (le ranged rest)⟩
      · exact ⟨(ranged.lt first).trans (ih entry there).1, (ih entry there).2⟩

/-- Entries of neighbouring ranges follow each other. -/
theorem ascending_append {low middle high : Bound K} {entries entries' : List (K × V)}
    (left : Ascending entries) (right : Ascending entries')
    (below : ∀ entry ∈ entries, InRange low middle entry.1)
    (above : ∀ entry ∈ entries', InRange middle high entry.1) : Ascending (entries ++ entries') := by
  refine List.pairwise_append.mpr ⟨left, right, fun first member second later => ?_⟩
  exact Bound.key_lt_key.mp ((below first member).2.trans_lt (above second later).1)

theorem ascending (ranged : Ranged P) (spans : Spans P low children high entries cells) :
    Ascending entries := by
  induction spans with
  | nil low => exact List.Pairwise.nil
  | cons first rest ih =>
      exact ascending_append (ranged.ascending first) ih (ranged.inRange first)
        (inRange ranged rest)

/-- Each child has a range of its own, up to the separator after it. -/
theorem child (ranged : Ranged P) (spans : Spans P low children high entries cells) {cell : C × K}
    (member : cell ∈ children) :
    ∃ above held owned, low ≤ above ∧ Bound.key cell.2 ≤ high ∧
      P above (Bound.key cell.2) cell.1 held owned := by
  induction spans with
  | nil low => cases member
  | cons first rest ih =>
      rcases List.mem_cons.mp member with rfl | later
      · exact ⟨_, _, _, le_rfl, rest.le ranged, first⟩
      · obtain ⟨above, held, owned, lower, upper, found⟩ := ih later
        exact ⟨above, held, owned, (ranged.lt first).le.trans lower, upper, found⟩

omit [LinearOrder K] in
/-- What the children give one by one, when it is what their entries give. -/
theorem flatMap_eq {A : Type} {give : C → List A} {of : K × V → A}
    (spans : Spans P low children high entries cells)
    (each : ∀ {low high child entries owned}, P low high child entries owned →
      give child = entries.map of) : (children.map Prod.fst).flatMap give = entries.map of := by
  induction spans with
  | nil low => rfl
  | cons first rest ih =>
      rw [List.map_cons, List.flatMap_cons, each first, ih, List.map_append]

/-- Where a key of the range belongs: to the first child whose separator is not
below it, or past the last separator. -/
theorem route (spans : Spans P low children high entries cells) {key : K}
    (above : low < Bound.key key) :
    (∃ before child separator after middle entriesBefore held entriesAfter cellsBefore owned
        cellsAfter,
      children = before ++ (child, separator) :: after ∧ (∀ cell ∈ before, cell.2 < key) ∧
      key ≤ separator ∧ Spans P low before middle entriesBefore cellsBefore ∧
      P middle (Bound.key separator) child held owned ∧
      Spans P (Bound.key separator) after high entriesAfter cellsAfter ∧ middle < Bound.key key ∧
      entries = entriesBefore ++ held ++ entriesAfter ∧
      cells = cellsBefore ++ owned ++ cellsAfter) ∨
    ((∀ cell ∈ children, cell.2 < key) ∧ high < Bound.key key) := by
  induction spans with
  | nil low => exact .inr ⟨by simp, above⟩
  | @cons low high child separator children held entriesAfter owned cellsAfter first rest ih =>
      by_cases here : key ≤ separator
      · exact .inl ⟨[], child, separator, children, low, [], held, entriesAfter, [], owned,
          cellsAfter, rfl, by simp, here, .nil low, first, rest, above, rfl, rfl⟩
      · have less : separator < key := not_le.mp here
        rcases ih (Bound.key_lt_key.mpr less) with
          ⟨before, child', separator', after, middle, entriesBefore, held', entriesAfter',
            cellsBefore, owned', cellsAfter', rfl, lower, upper, left, found, right, inside, rfl,
            rfl⟩ | ⟨lower, past⟩
        · refine .inl ⟨(child, separator) :: before, child', separator', after, middle, _, held',
            entriesAfter', _, owned', cellsAfter', rfl, ?_, upper, .cons first left, found, right,
            inside, by simp, by simp⟩
          intro cell member
          rcases List.mem_cons.mp member with rfl | member
          · exact less
          · exact lower cell member
        · refine .inr ⟨fun cell member => ?_, past⟩
          rcases List.mem_cons.mp member with rfl | member
          · exact less
          · exact lower cell member

end Spans

/-- Entries of the ranges before and after the range of a key lie below and
above the key. -/
theorem below_of_inRange {low middle : Bound K} {key : K} {entries : List (K × V)}
    (ranges : ∀ entry ∈ entries, InRange low middle entry.1) (above : middle < Bound.key key) :
    ∀ entry ∈ entries, entry.1 < key := fun entry member =>
  Bound.key_lt_key.mp ((ranges entry member).2.trans_lt above)

theorem above_of_inRange {middle high : Bound K} {key : K} {entries : List (K × V)}
    (ranges : ∀ entry ∈ entries, InRange middle high entry.1) (below : Bound.key key ≤ middle) :
    ∀ entry ∈ entries, key < entry.1 := fun entry member =>
  Bound.key_lt_key.mp (below.trans_lt (ranges entry member).1)

end Squrust.Foundation
