import Mathlib.Data.List.Basic
import Mathlib.Data.List.Nodup
import Mathlib.Tactic.Common

/-!
# First occurrences

The items of a list whose key does not occur before them, in order
(`firstOccurrences`). Going along the list with the keys that were seen gives them
(`keepFirst_nil`): their keys are those of the list, each once.
-/

set_option autoImplicit false

namespace Squrust.Foundation

variable {α κ : Type} [DecidableEq κ] (key : α → κ)

/-- The items that are the first with their key. -/
def firstOccurrences (items : List α) : List α :=
  (items.zipIdx.filter fun entry => key entry.1 ∉ (items.take entry.2).map key).map Prod.fst

/-- Keep an item if its key was not seen. -/
def keepFirst : List κ → List α → List α
  | _, [] => []
  | seen, item :: items =>
      if key item ∈ seen then keepFirst seen items
      else item :: keepFirst (seen ++ [key item]) items

variable {key} {seen : List κ} {items : List α}

theorem keepFirst_cons_of_mem {item : α} (member : key item ∈ seen) :
    keepFirst key seen (item :: items) = keepFirst key seen items := by
  rw [keepFirst, if_pos member]

theorem keepFirst_cons_of_not_mem {item : α} (fresh : key item ∉ seen) :
    keepFirst key seen (item :: items) = item :: keepFirst key (seen ++ [key item]) items := by
  rw [keepFirst, if_neg fresh]

/-- What is kept, by the positions in the list. -/
theorem keepFirst_eq (seen : List κ) (items : List α) :
    keepFirst key seen items =
      (items.zipIdx.filter fun entry =>
        key entry.1 ∉ seen ++ (items.take entry.2).map key).map Prod.fst := by
  induction items generalizing seen with
  | nil => rfl
  | cons item items ih =>
      -- The positions of the tail are one further in the whole list.
      have tail : ∀ seen' : List κ, (∀ k, k ∈ seen' ↔ k ∈ seen ∨ k = key item) →
          ((items.zipIdx 1).filter fun entry =>
            key entry.1 ∉ seen ++ ((item :: items).take entry.2).map key).map Prod.fst =
          keepFirst key seen' items := by
        intro seen' same
        rw [ih seen', List.zipIdx_succ, List.filter_map, List.map_map]
        refine congrArg₂ List.map rfl (List.filter_congr fun entry _ => ?_)
        simp only [Function.comp_apply, List.take_succ_cons, List.map_cons, List.mem_append, same,
          List.mem_cons, or_assoc]
      by_cases member : key item ∈ seen
      · rw [keepFirst_cons_of_mem member, List.zipIdx_cons, List.filter_cons,
          if_neg (by simpa using member), Nat.zero_add]
        refine (tail seen fun k => ⟨.inl, ?_⟩).symm
        rintro (there | rfl)
        · exact there
        · exact member
      · rw [keepFirst_cons_of_not_mem member, List.zipIdx_cons, List.filter_cons,
          if_pos (by simpa using member), Nat.zero_add]
        exact congrArg (item :: ·) (tail _ fun k => by rw [List.mem_append, List.mem_singleton]).symm

/-- **Going along the list gives the first occurrences.** -/
theorem keepFirst_nil (items : List α) : keepFirst key [] items = firstOccurrences key items :=
  keepFirst_eq [] items

/-- The keys that are kept are those of the list that were not seen. -/
theorem mem_map_keepFirst {k : κ} :
    k ∈ (keepFirst key seen items).map key ↔ k ∉ seen ∧ k ∈ items.map key := by
  induction items generalizing seen with
  | nil => simp [keepFirst]
  | cons item items ih =>
      by_cases member : key item ∈ seen
      · rw [keepFirst_cons_of_mem member, ih, List.map_cons, List.mem_cons]
        constructor
        · exact fun ⟨fresh, there⟩ => ⟨fresh, .inr there⟩
        · rintro ⟨fresh, rfl | there⟩
          · exact absurd member fresh
          · exact ⟨fresh, there⟩
      · rw [keepFirst_cons_of_not_mem member, List.map_cons, List.mem_cons, ih, List.map_cons,
          List.mem_cons, List.mem_append, List.mem_singleton]
        by_cases same : k = key item
        · subst same
          simp [member]
        · simp [same]

theorem nodup_map_keepFirst : ((keepFirst key seen items).map key).Nodup := by
  induction items generalizing seen with
  | nil => exact List.nodup_nil
  | cons item items ih =>
      by_cases member : key item ∈ seen
      · rw [keepFirst_cons_of_mem member]
        exact ih
      · rw [keepFirst_cons_of_not_mem member, List.map_cons, List.nodup_cons, mem_map_keepFirst]
        exact ⟨fun both => both.1 (List.mem_append_right _ List.mem_cons_self), ih⟩

@[simp] theorem mem_map_firstOccurrences {k : κ} :
    k ∈ (firstOccurrences key items).map key ↔ k ∈ items.map key := by
  rw [← keepFirst_nil, mem_map_keepFirst]
  exact and_iff_right List.not_mem_nil

theorem nodup_map_firstOccurrences : ((firstOccurrences key items).map key).Nodup := by
  rw [← keepFirst_nil]
  exact nodup_map_keepFirst

theorem firstOccurrences_subset : firstOccurrences key items ⊆ items := by
  intro item member
  obtain ⟨entry, inFilter, rfl⟩ := List.mem_map.mp member
  exact List.fst_mem_of_mem_zipIdx (List.mem_of_mem_filter inFilter)

/-- A further item is kept if its key is not there yet. -/
theorem firstOccurrences_concat (item : α) :
    firstOccurrences key (items ++ [item]) =
      firstOccurrences key items ++ if key item ∈ items.map key then [] else [item] := by
  have further : ∀ seen : List κ, keepFirst key seen (items ++ [item]) = keepFirst key seen items ++
      if key item ∈ seen ∨ key item ∈ items.map key then [] else [item] := by
    induction items with
    | nil =>
        intro seen
        by_cases member : key item ∈ seen
        · simp [keepFirst, member]
        · simp [keepFirst, member]
    | cons first rest ih =>
        intro seen
        rw [List.cons_append]
        by_cases member : key first ∈ seen
        · rw [keepFirst_cons_of_mem member, keepFirst_cons_of_mem member, ih]
          refine congrArg (keepFirst key seen rest ++ ·) (if_congr ?_ rfl rfl)
          rw [List.map_cons, List.mem_cons]
          constructor
          · exact fun either => either.imp_right .inr
          · rintro (there | same | later)
            · exact .inl there
            · exact .inl (same ▸ member)
            · exact .inr later
        · rw [keepFirst_cons_of_not_mem member, keepFirst_cons_of_not_mem member, ih, List.cons_append]
          refine congrArg (fun rest' => first :: (keepFirst key _ rest ++ rest')) (if_congr ?_ rfl rfl)
          rw [List.mem_append, List.mem_singleton, List.map_cons, List.mem_cons, or_assoc]
  rw [← keepFirst_nil, ← keepFirst_nil, further]
  exact congrArg _ (if_congr (or_iff_right List.not_mem_nil) rfl rfl)

/-- Items with one of these keys, group by group: each is in exactly one group. -/
theorem perm_flatMap_filter [DecidableEq α] {keys : List κ} (nodup : keys.Nodup)
    (covered : ∀ item ∈ items, key item ∈ keys) :
    items.Perm (keys.flatMap fun k => items.filter fun item => key item = k) := by
  rw [List.perm_iff_count]
  intro item
  have one (keys : List κ) (nodup : keys.Nodup) :
      (keys.map fun k => (items.filter fun item => key item = k).count item).sum =
        if key item ∈ keys then items.count item else 0 := by
    induction keys with
    | nil => rfl
    | cons k keys ih =>
        obtain ⟨fresh, nodup⟩ := List.nodup_cons.mp nodup
        rw [List.map_cons, List.sum_cons, ih nodup]
        by_cases same : key item = k
        · subst same
          have own : (items.filter fun other => key other = key item).count item = items.count item :=
            List.count_filter (decide_eq_true rfl)
          rw [own, if_neg fresh, if_pos List.mem_cons_self, Nat.add_zero]
        · have none : (items.filter fun item => key item = k).count item = 0 := by
            refine List.count_eq_zero.mpr fun member => same ?_
            exact of_decide_eq_true (List.mem_filter.mp member).2
          rw [none, Nat.zero_add]
          exact if_congr (by rw [List.mem_cons, or_iff_right same]) rfl rfl
  rw [List.count_flatMap]
  change _ = (keys.map fun k => (items.filter fun item => key item = k).count item).sum
  rw [one keys nodup]
  by_cases member : item ∈ items
  · rw [if_pos (covered item member)]
  · rw [List.count_eq_zero.mpr member, ite_self]

omit [DecidableEq κ] in
/-- Setting the entry of one of different keys changes this entry only. -/
theorem set_map_of_nodup {keys : List κ} {f f' : κ → α} (nodup : keys.Nodup) {i : Nat}
    (inRange : i < keys.length) (others : ∀ k ∈ keys, k ≠ keys[i] → f' k = f k) :
    (keys.map f).set i (f' keys[i]) = keys.map f' := by
  refine List.ext_getElem (by rw [List.length_set, List.length_map, List.length_map]) ?_
  intro j inSet inMap
  rw [List.length_map] at inMap
  rw [List.getElem_set, List.getElem_map, List.getElem_map]
  by_cases same : i = j
  · subst same
    rw [if_pos rfl]
  · rw [if_neg same]
    exact (others _ (List.getElem_mem inMap) fun equal => same ((nodup.getElem_inj_iff).mp equal).symm).symm

end Squrust.Foundation
