import Squrust.Foundation.SortedEntries

/-!
# Finite maps

A finite map over a linear order, as its entries in ascending order. The order
is part of the type, so two maps with the same values are the same map
(`FiniteMap.ext_get?`), and a program's hash map is such a map up to the order
in which it is walked.
-/

set_option autoImplicit false

namespace Squrust.Foundation

variable {K V : Type} [LinearOrder K]

/-- A finite map: entries with strictly ascending keys. -/
@[ext] structure FiniteMap (K V : Type) [LinearOrder K] where
  entries : List (K × V)
  ascending : Ascending entries

namespace FiniteMap

instance [DecidableEq V] : DecidableEq (FiniteMap K V) := fun first second =>
  decidable_of_iff (first.entries = second.entries) FiniteMap.ext_iff.symm

/-- The map without entries. -/
def empty : FiniteMap K V := ⟨[], List.Pairwise.nil⟩

def get? (map : FiniteMap K V) (key : K) : Option V := Entries.lookup key map.entries

def insert (map : FiniteMap K V) (key : K) (value : V) : FiniteMap K V :=
  ⟨Entries.put key value map.entries, Entries.ascending_put map.ascending⟩

def erase (map : FiniteMap K V) (key : K) : FiniteMap K V :=
  ⟨Entries.drop key map.entries, Entries.ascending_drop map.ascending⟩

def isEmpty (map : FiniteMap K V) : Bool := map.entries.isEmpty

def size (map : FiniteMap K V) : Nat := map.entries.length

@[simp] theorem get?_empty (key : K) : (empty : FiniteMap K V).get? key = none := rfl

theorem get?_insert (map : FiniteMap K V) (key : K) (value : V) (other : K) :
    (map.insert key value).get? other = if other = key then some value else map.get? other :=
  Entries.lookup_put map.ascending other

@[simp] theorem get?_insert_self (map : FiniteMap K V) (key : K) (value : V) :
    (map.insert key value).get? key = some value := by
  rw [get?_insert, if_pos rfl]

theorem get?_insert_of_ne {map : FiniteMap K V} {key other : K} {value : V} (different : other ≠ key) :
    (map.insert key value).get? other = map.get? other := by
  rw [get?_insert, if_neg different]

theorem get?_erase (map : FiniteMap K V) (key other : K) :
    (map.erase key).get? other = if other = key then none else map.get? other :=
  Entries.lookup_drop map.ascending other

@[simp] theorem get?_erase_self (map : FiniteMap K V) (key : K) : (map.erase key).get? key = none := by
  rw [get?_erase, if_pos rfl]

theorem get?_erase_of_ne {map : FiniteMap K V} {key other : K} (different : other ≠ key) :
    (map.erase key).get? other = map.get? other := by
  rw [get?_erase, if_neg different]

theorem get?_eq_some_iff {map : FiniteMap K V} {key : K} {value : V} :
    map.get? key = some value ↔ (key, value) ∈ map.entries :=
  Entries.lookup_eq_some_iff map.ascending

/-- Every key has at most one entry. -/
theorem map_snd_filter_key (map : FiniteMap K V) (key : K) :
    (map.entries.filter fun entry => entry.1 = key).map Prod.snd = (map.get? key).toList := by
  unfold get? Entries.lookup
  have ascending := map.ascending
  induction entries : map.entries generalizing map with
  | nil => rfl
  | cons first rest ih =>
      rw [entries] at ascending
      obtain ⟨below, ascendingRest⟩ := List.pairwise_cons.mp ascending
      by_cases here : first.1 = key
      · have none : rest.filter (fun entry => decide (entry.1 = key)) = [] := by
          rw [List.filter_eq_nil_iff]
          intro entry among
          have later := below entry among
          simpa [← here] using later.ne'
        simp [here, none]
      · have rest_eq := ih ⟨rest, ascendingRest⟩ ascendingRest rfl
        simpa [here] using rest_eq

/-- The first key is the least one. -/
theorem head_le {map : FiniteMap K V} {key default : K} {value : V}
    (found : map.get? key = some value) : (map.entries.head?.map Prod.fst).getD default ≤ key := by
  have among := get?_eq_some_iff.mp found
  have ascending := map.ascending
  cases entries : map.entries with
  | nil =>
      rw [entries] at among
      cases among
  | cons first rest =>
      rw [entries] at among ascending
      rcases List.mem_cons.mp among with rfl | later
      · exact le_rfl
      · exact ((List.pairwise_cons.mp ascending).1 _ later).le

/-- Maps with the same values are the same. -/
theorem ext_get? {first second : FiniteMap K V} (same : ∀ key, first.get? key = second.get? key) :
    first = second := by
  refine FiniteMap.ext (ascending_ext first.ascending second.ascending fun key value => ?_)
  rw [← get?_eq_some_iff, ← get?_eq_some_iff, same]

theorem eq_empty_of_isEmpty {map : FiniteMap K V} (none : map.isEmpty = true) : map = empty :=
  FiniteMap.ext (List.isEmpty_iff.mp none)

end FiniteMap

end Squrust.Foundation
