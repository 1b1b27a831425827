import Squrust.Foundation.Cycles

/-!
# Searching a list of items

A search takes the first item of its list. The item ends the search, or it is
left out, or others take its place (`Search.step`). Where the items that take
the place of others lead back to them, a search may go on forever.

An item is barren when the search gets behind it: all that takes its place is
left out in the end. The search comes to an item's part when the parts before it
are barren (`Visits`). It ends exactly when this relation has no endless path
from an item that it comes to (`Search.finishes_iff`).
-/

set_option autoImplicit false

namespace Squrust.Foundation

open Relation

variable {α : Type}

/-- What an item is to a search. -/
inductive Look (α : Type) where
  | stop
  | nothing
  | branch (children : List α)

namespace Search

variable (look : α → Look α)

/-- One step. At its end a search has no next list. -/
def step : List α → Option (List α)
  | [] => none
  | item :: rest =>
      match look item with
      | .stop => none
      | .nothing => some rest
      | .branch children => some (children ++ rest)

/-- A search gets behind the item. -/
inductive Barren : α → Prop
  | nothing {item : α} (isNothing : look item = .nothing) : Barren item
  | branch {item : α} {children : List α} (branches : look item = .branch children)
      (all : ∀ child ∈ children, Barren child) : Barren item

/-- A search that comes to the item comes to the part. -/
def Visits (item part : α) : Prop :=
  ∃ before after, look item = .branch (before ++ part :: after) ∧ ∀ other ∈ before, Barren look other

/-- A search of the list comes to the item. -/
def ComesTo (list : List α) (item : α) : Prop :=
  ∃ before head after, list = before ++ head :: after ∧ (∀ other ∈ before, Barren look other) ∧
    ReflTransGen (Visits look) head item

variable {look}

theorem Barren.all_of_branch {item : α} {children : List α} (barren : Barren look item)
    (branches : look item = .branch children) : ∀ child ∈ children, Barren look child := by
  cases barren with
  | nothing isNothing =>
      rw [isNothing] at branches
      cases branches
  | branch branches' all =>
      obtain rfl := Look.branch.inj (branches.symm.trans branches')
      exact all

theorem not_barren_of_stop {item : α} (stops : look item = .stop) : ¬ Barren look item := by
  intro barren
  cases barren with
  | nothing isNothing =>
      rw [stops] at isNothing
      cases isNothing
  | branch branches _ =>
      rw [stops] at branches
      cases branches

theorem not_comesTo_nil {item : α} : ¬ ComesTo look [] item := by
  rintro ⟨before, head, after, split, -⟩
  cases before <;> cases split

/-- A search comes to the items behind the first one if that is barren. -/
theorem comesTo_cons {first item : α} {rest : List α} :
    ComesTo look (first :: rest) item ↔
      ReflTransGen (Visits look) first item ∨ Barren look first ∧ ComesTo look rest item := by
  constructor
  · rintro ⟨before, head, after, split, barren, reach⟩
    cases before with
    | nil =>
        obtain ⟨rfl, -⟩ := List.cons.inj split
        exact Or.inl reach
    | cons other before =>
        obtain ⟨rfl, rfl⟩ := List.cons.inj split
        exact Or.inr ⟨barren _ List.mem_cons_self, before, head, after, rfl,
          fun other among => barren other (List.mem_cons_of_mem _ among), reach⟩
  · rintro (reach | ⟨barren, before, head, after, rfl, barren', reach⟩)
    · exact ⟨[], first, rest, rfl, List.forall_mem_nil _, reach⟩
    · refine ⟨first :: before, head, after, rfl, fun other among => ?_, reach⟩
      rcases List.mem_cons.mp among with rfl | among
      · exact barren
      · exact barren' other among

theorem comesTo_append {items rest : List α} {item : α} :
    ComesTo look (items ++ rest) item ↔
      ComesTo look items item ∨ (∀ other ∈ items, Barren look other) ∧ ComesTo look rest item := by
  induction items with
  | nil =>
      constructor
      · intro comes
        exact Or.inr ⟨List.forall_mem_nil _, comes⟩
      · rintro (absurd | ⟨-, comes⟩)
        · exact (not_comesTo_nil absurd).elim
        · exact comes
  | cons first items ih =>
      rw [List.cons_append, comesTo_cons, comesTo_cons, ih, List.forall_mem_cons]
      tauto

/-- The parts of an item that a search comes to are those it visits. -/
theorem comesTo_children {first item : α} {children : List α} (branches : look first = .branch children) :
    ComesTo look children item ↔ ∃ part, Visits look first part ∧ ReflTransGen (Visits look) part item := by
  constructor
  · rintro ⟨before, part, after, rfl, barren, reach⟩
    exact ⟨part, ⟨before, after, branches, barren⟩, reach⟩
  · rintro ⟨part, ⟨before, after, branches', barren⟩, reach⟩
    obtain rfl := Look.branch.inj (branches.symm.trans branches')
    exact ⟨before, part, after, rfl, barren, reach⟩

theorem not_visits_of_stop {item part : α} (stops : look item = .stop) : ¬ Visits look item part := by
  rintro ⟨before, after, branches, -⟩
  rw [stops] at branches
  cases branches

theorem not_visits_of_nothing {item part : α} (isNothing : look item = .nothing) :
    ¬ Visits look item part := by
  rintro ⟨before, after, branches, -⟩
  rw [isNothing] at branches
  cases branches

/-- A step keeps the items at which a search can stop. -/
theorem comesTo_of_step {list next : List α} {item : α} (stepped : step look list = some next)
    (stops : look item = .stop) : ComesTo look list item ↔ ComesTo look next item := by
  cases list with
  | nil => cases stepped
  | cons first rest =>
      rw [step] at stepped
      rw [comesTo_cons]
      cases isLook : look first with
      | stop =>
          rw [isLook] at stepped
          cases stepped
      | nothing =>
          rw [isLook] at stepped
          obtain rfl := Option.some.inj stepped
          constructor
          · rintro (reach | ⟨-, comes⟩)
            · rcases ReflTransGen.cases_head reach with rfl | ⟨part, visits, -⟩
              · rw [isLook] at stops
                cases stops
              · exact (not_visits_of_nothing isLook visits).elim
            · exact comes
          · intro comes
            exact Or.inr ⟨.nothing isLook, comes⟩
      | branch children =>
          rw [isLook] at stepped
          obtain rfl := Option.some.inj stepped
          rw [comesTo_append, comesTo_children isLook]
          constructor
          · rintro (reach | ⟨barren, comes⟩)
            · rcases ReflTransGen.cases_head reach with rfl | ⟨part, visits, reach⟩
              · rw [isLook] at stops
                cases stops
              · exact Or.inl ⟨part, visits, reach⟩
            · exact Or.inr ⟨barren.all_of_branch isLook, comes⟩
          · rintro (⟨part, visits, reach⟩ | ⟨all, comes⟩)
            · exact Or.inl (ReflTransGen.head visits reach)
            · exact Or.inr ⟨.branch isLook all, comes⟩

/-- A search that stops at its first item comes to no other. -/
theorem comesTo_of_stop {first item : α} {rest : List α} (stops : look first = .stop) :
    ComesTo look (first :: rest) item ↔ item = first := by
  rw [comesTo_cons]
  constructor
  · rintro (reach | ⟨barren, -⟩)
    · rcases ReflTransGen.cases_head reach with rfl | ⟨part, visits, -⟩
      · rfl
      · exact (not_visits_of_stop stops visits).elim
    · exact (not_barren_of_stop stops barren).elim
  · rintro rfl
    exact Or.inl .refl

/-! ## When a search ends -/

/-- The search of the list ends. -/
def Finishes (look : α → Look α) (list : List α) : Prop :=
  Ends (fun earlier later => step look earlier = some later) list

theorem finishes_of_step {list next : List α} (stepped : step look list = some next) :
    Finishes look list ↔ Finishes look next := by
  rw [Finishes, ends_iff_links]
  constructor
  · intro all
    exact all next stepped
  · intro ends later stepped'
    obtain rfl := Option.some.inj (stepped.symm.trans stepped')
    exact ends

theorem finishes_of_step_none {list : List α} (stopped : step look list = none) : Finishes look list := by
  rw [Finishes, ends_iff_links]
  intro later stepped
  rw [stopped] at stepped
  cases stepped

/-- From no item that a search comes to is there an endless path. -/
def AllEnd (look : α → Look α) (list : List α) : Prop :=
  ∀ before head after, list = before ++ head :: after → (∀ other ∈ before, Barren look other) →
    Ends (Visits look) head

theorem allEnd_cons {first : α} {rest : List α} :
    AllEnd look (first :: rest) ↔ Ends (Visits look) first ∧ (Barren look first → AllEnd look rest) := by
  constructor
  · intro all
    refine ⟨all [] first rest rfl (List.forall_mem_nil _), fun barren => ?_⟩
    rintro before head after rfl barren'
    refine all (first :: before) head after rfl fun other among => ?_
    rcases List.mem_cons.mp among with rfl | among
    · exact barren
    · exact barren' other among
  · rintro ⟨ends, later⟩ before head after split barren
    cases before with
    | nil =>
        obtain ⟨rfl, -⟩ := List.cons.inj split
        exact ends
    | cons other before =>
        obtain ⟨rfl, rfl⟩ := List.cons.inj split
        exact later (barren _ List.mem_cons_self) before head after rfl
          fun other among => barren other (List.mem_cons_of_mem _ among)

theorem allEnd_nil : AllEnd look ([] : List α) := by
  rintro before head after split -
  cases before <;> cases split

theorem allEnd_append {items rest : List α} :
    AllEnd look (items ++ rest) ↔
      AllEnd look items ∧ ((∀ other ∈ items, Barren look other) → AllEnd look rest) := by
  induction items with
  | nil =>
      refine ⟨fun all => ⟨allEnd_nil, fun _ => all⟩, fun both => both.2 fun other among => ?_⟩
      cases among
  | cons first items ih =>
      rw [List.cons_append, allEnd_cons, allEnd_cons, ih, List.forall_mem_cons]
      tauto

theorem allEnd_children {first : α} {children : List α} (branches : look first = .branch children) :
    AllEnd look children ↔ Ends (Visits look) first := by
  rw [ends_iff_links]
  constructor
  · rintro all part ⟨before, after, branches', barren⟩
    obtain rfl := Look.branch.inj (branches.symm.trans branches')
    exact all before part after rfl barren
  · rintro all before part after rfl barren
    exact all part ⟨before, after, branches, barren⟩

theorem barren_iff_of_branch {first : α} {children : List α} (branches : look first = .branch children) :
    Barren look first ↔ ∀ child ∈ children, Barren look child :=
  ⟨fun barren => barren.all_of_branch branches, fun all => .branch branches all⟩

theorem allEnd_of_step {list next : List α} (stepped : step look list = some next) :
    AllEnd look list ↔ AllEnd look next := by
  cases list with
  | nil => cases stepped
  | cons first rest =>
      rw [step] at stepped
      rw [allEnd_cons]
      cases isLook : look first with
      | stop =>
          rw [isLook] at stepped
          cases stepped
      | nothing =>
          rw [isLook] at stepped
          obtain rfl := Option.some.inj stepped
          have ends : Ends (Visits look) first :=
            ends_iff_links.mpr fun part visits => (not_visits_of_nothing isLook visits).elim
          exact ⟨fun both => both.2 (.nothing isLook), fun all => ⟨ends, fun _ => all⟩⟩
      | branch children =>
          rw [isLook] at stepped
          obtain rfl := Option.some.inj stepped
          rw [allEnd_append, allEnd_children isLook, barren_iff_of_branch isLook]

theorem allEnd_of_step_none {list : List α} (stopped : step look list = none) : AllEnd look list := by
  cases list with
  | nil => exact allEnd_nil
  | cons first rest =>
      have stops : look first = .stop := by
        rw [step] at stopped
        cases isLook : look first with
        | stop => rfl
        | nothing =>
            rw [isLook] at stopped
            cases stopped
        | branch children =>
            rw [isLook] at stopped
            cases stopped
      exact allEnd_cons.mpr ⟨ends_iff_links.mpr fun part visits =>
        (not_visits_of_stop stops visits).elim, fun barren => (not_barren_of_stop stops barren).elim⟩

/-- The search gets through an item from which there is no endless path: it stops, or comes to
what stands behind the item. -/
theorem finishes_cons {first : α} {rest : List α} (ends : Ends (Visits look) first)
    (later : Barren look first → Finishes look rest) : Finishes look (first :: rest) := by
  induction ends generalizing rest with
  | intro first _ ih =>
    cases isLook : look first with
    | stop => exact finishes_of_step_none (by rw [step, isLook])
    | nothing =>
        have stepped : step look (first :: rest) = some rest := by rw [step, isLook]
        exact (finishes_of_step stepped).mpr (later (.nothing isLook))
    | branch children =>
        have stepped : step look (first :: rest) = some (children ++ rest) := by rw [step, isLook]
        rw [finishes_of_step stepped]
        -- by induction on the parts that are left, when the ones before are barren
        have through : ∀ parts before, children = before ++ parts →
            (∀ other ∈ before, Barren look other) → Finishes look (parts ++ rest) := by
          intro parts
          induction parts with
          | nil =>
              intro before split barren
              rw [List.append_nil] at split
              rw [← split] at barren
              exact later (.branch isLook barren)
          | cons part parts ihParts =>
              intro before split barren
              refine ih part ⟨before, parts, split ▸ isLook, barren⟩ fun barrenPart => ?_
              refine ihParts (before ++ [part]) (by rw [split, List.append_assoc, List.singleton_append])
                fun other among => ?_
              rcases List.mem_append.mp among with among | among
              · exact barren other among
              · rw [List.mem_singleton.mp among]
                exact barrenPart
        exact through children [] rfl (List.forall_mem_nil _)

theorem AllEnd.finishes {list : List α} (all : AllEnd look list) : Finishes look list := by
  induction list with
  | nil => exact finishes_of_step_none rfl
  | cons first rest ih =>
      obtain ⟨ends, later⟩ := allEnd_cons.mp all
      exact finishes_cons ends fun barren => ih (later barren)

theorem Finishes.allEnd {list : List α} (finishes : Finishes look list) : AllEnd look list := by
  induction finishes with
  | intro list _ ih =>
    cases stepped : step look list with
    | none => exact allEnd_of_step_none stepped
    | some next => exact (allEnd_of_step stepped).mpr (ih next stepped)

/-- Among finitely many items a search ends exactly when it comes to no item that leads back to
itself. -/
theorem finishes_iff [Finite α] {list : List α} :
    Finishes look list ↔ ∀ item, ComesTo look list item → ¬ TransGen (Visits look) item item := by
  refine ⟨fun finishes item comes => ?_, fun noLoop => AllEnd.finishes ?_⟩
  · obtain ⟨before, head, after, split, barren, reach⟩ := comes
    exact ends_iff_no_loop.mp (finishes.allEnd before head after split barren) item reach
  · intro before head after split barren
    exact ends_iff_no_loop.mpr fun item reach => noLoop item ⟨before, head, after, split, barren, reach⟩

end Search

end Squrust.Foundation
