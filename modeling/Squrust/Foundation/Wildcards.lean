import Mathlib.Computability.Language

/-!
# Patterns with gaps

A pattern is a list of items, read from the left: a gap stands for any word, the
other items for one letter each, out of a set. Its language is the product of the
languages of its items.

A matcher decides such a language by two rules: a gap is empty or takes the first
letter and stays (`cons_mem_gap`), and another item takes the first letter and is
done (`cons_mem_one`).
-/

set_option autoImplicit false

namespace Squrust.Foundation

/-- An item of a pattern. -/
inductive Wildcard (α : Type) where
  /-- Any word. -/
  | gap
  /-- One letter out of a set. -/
  | one (letters : Set α)

namespace Wildcard

variable {α : Type}

/-- What an item stands for. -/
def language : Wildcard α → Language α
  | gap => ⊤
  | one letters => {word | ∃ letter ∈ letters, word = [letter]}

/-- The words of a pattern. -/
def matched (pattern : List (Wildcard α)) : Language α := (pattern.map language).prod

theorem mem_matched_nil {word : List α} : word ∈ matched ([] : List (Wildcard α)) ↔ word = [] := by
  rw [matched, List.map_nil, List.prod_nil, Language.mem_one]

theorem mem_matched_cons {item : Wildcard α} {pattern : List (Wildcard α)} {word : List α} :
    word ∈ matched (item :: pattern) ↔
      ∃ front ∈ language item, ∃ back ∈ matched pattern, front ++ back = word := by
  rw [matched, List.map_cons, List.prod_cons, Language.mem_mul]
  rfl

/-! ## Gaps -/

theorem nil_mem_gap {pattern : List (Wildcard α)} :
    [] ∈ matched (gap :: pattern) ↔ [] ∈ matched pattern := by
  rw [mem_matched_cons]
  constructor
  · rintro ⟨front, -, back, member, whole⟩
    obtain ⟨-, rfl⟩ := List.append_eq_nil_iff.mp whole
    exact member
  · intro member
    exact ⟨[], trivial, [], member, rfl⟩

theorem cons_mem_gap {pattern : List (Wildcard α)} {letter : α} {word : List α} :
    letter :: word ∈ matched (gap :: pattern) ↔
      letter :: word ∈ matched pattern ∨ word ∈ matched (gap :: pattern) := by
  simp only [mem_matched_cons]
  constructor
  · rintro ⟨front, -, back, member, whole⟩
    cases front with
    | nil =>
        rw [List.nil_append] at whole
        exact .inl (whole ▸ member)
    | cons first front =>
        obtain ⟨-, rest⟩ := List.cons.inj whole
        exact .inr ⟨front, trivial, back, member, rest⟩
  · rintro (member | ⟨front, -, back, member, rfl⟩)
    · exact ⟨[], trivial, _, member, rfl⟩
    · exact ⟨letter :: front, trivial, back, member, rfl⟩

/-! ## Letters -/

theorem nil_not_mem_one {letters : Set α} {pattern : List (Wildcard α)} :
    [] ∉ matched (one letters :: pattern) := by
  rw [mem_matched_cons]
  rintro ⟨_, ⟨letter, -, rfl⟩, back, -, whole⟩
  cases whole

theorem cons_mem_one {letters : Set α} {pattern : List (Wildcard α)} {letter : α} {word : List α} :
    letter :: word ∈ matched (one letters :: pattern) ↔ letter ∈ letters ∧ word ∈ matched pattern := by
  rw [mem_matched_cons]
  constructor
  · rintro ⟨_, ⟨other, allowed, rfl⟩, back, member, whole⟩
    obtain ⟨rfl, rfl⟩ := List.cons.inj whole
    exact ⟨allowed, member⟩
  · rintro ⟨allowed, member⟩
    exact ⟨[letter], ⟨letter, allowed, rfl⟩, word, member, rfl⟩

/-- An item that allows no letter matches nothing. -/
theorem not_mem_empty {pattern : List (Wildcard α)} {word : List α} :
    word ∉ matched (one ∅ :: pattern) := by
  cases word with
  | nil => exact nil_not_mem_one
  | cons letter word =>
      rw [cons_mem_one]
      rintro ⟨allowed, -⟩
      exact allowed

/-- Without gaps, a word is matched letter by letter. -/
theorem mem_matched_map_one {β : Type} {letters : β → Set α} {pattern : List β} {word : List α} :
    word ∈ matched (pattern.map fun place => one (letters place)) ↔
      List.Forall₂ (fun place letter => letter ∈ letters place) pattern word := by
  induction pattern generalizing word with
  | nil => rw [List.map_nil, mem_matched_nil, List.forall₂_nil_left_iff]
  | cons place pattern ih =>
      rw [List.map_cons]
      cases word with
      | nil =>
          constructor
          · intro member
            exact (nil_not_mem_one member).elim
          · intro all
            cases all
      | cons letter word => rw [cons_mem_one, ih, List.forall₂_cons]

/-- Every letter that a pattern asks for is in a word of it. -/
theorem exists_of_one_mem {pattern : List (Wildcard α)} {word : List α} {letters : Set α}
    (member : word ∈ matched pattern) (asked : one letters ∈ pattern) :
    ∃ letter ∈ word, letter ∈ letters := by
  induction pattern generalizing word with
  | nil => cases asked
  | cons item pattern ih =>
      obtain ⟨front, allowed, back, rest, rfl⟩ := mem_matched_cons.mp member
      rcases List.mem_cons.mp asked with rfl | later
      · obtain ⟨letter, inside, rfl⟩ := allowed
        exact ⟨letter, List.mem_append_left _ (List.mem_singleton.mpr rfl), inside⟩
      · obtain ⟨letter, occurs, inside⟩ := ih rest later
        exact ⟨letter, List.mem_append_right _ occurs, inside⟩

/-! ## Letters under a map -/

/-- An item, read on letters that are mapped first. -/
def comap {β : Type} (f : α → β) : Wildcard β → Wildcard α
  | gap => gap
  | one letters => one (Set.preimage f letters)

theorem map_mem_matched {β : Type} {f : α → β} {pattern : List (Wildcard β)} {word : List α} :
    word.map f ∈ matched pattern ↔ word ∈ matched (pattern.map (comap f)) := by
  induction pattern generalizing word with
  | nil => rw [List.map_nil, mem_matched_nil, mem_matched_nil, List.map_eq_nil_iff]
  | cons item pattern ih =>
      rw [List.map_cons]
      cases item with
      | gap =>
          induction word with
          | nil => exact nil_mem_gap.trans (ih.trans nil_mem_gap.symm)
          | cons letter word later =>
              exact cons_mem_gap.trans ((or_congr ih later).trans cons_mem_gap.symm)
      | one letters =>
          cases word with
          | nil => exact iff_of_false nil_not_mem_one nil_not_mem_one
          | cons letter word =>
              rw [comap, List.map_cons, cons_mem_one, cons_mem_one, ih]
              rfl

end Wildcard

end Squrust.Foundation
