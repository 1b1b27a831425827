import Mathlib.Order.Basic
import Mathlib.Data.List.Pairwise
import Mathlib.Order.Lattice

/-!
# Maps as ascending lists of entries

A finite map over a linear order is a list of entries with strictly ascending
keys. Putting an entry and dropping a key act on the part of the list around
the key only (`put_append`, `drop_append`), which is what a search tree uses:
its entries are the entries of its parts, one part after the other, and an
operation changes the part its key belongs to.

As functions from keys to values, `put` and `drop` are the update and the
removal of the map (`lookup_put`, `lookup_drop`), and two ascending lists with
the same function are the same list (`ascending_ext`).
-/

set_option autoImplicit false

namespace Squrust.Foundation

variable {K V : Type} [LinearOrder K]

/-- Strictly ascending keys. -/
def Ascending (entries : List (K × V)) : Prop :=
  entries.Pairwise (fun first second => first.1 < second.1)

namespace Entries

/-- The value of a key. -/
def lookup (key : K) (entries : List (K × V)) : Option V :=
  (entries.find? (fun entry => decide (entry.1 = key))).map Prod.snd

/-- Give a key a value, in place of the value it has. -/
def put (key : K) (value : V) (entries : List (K × V)) : List (K × V) :=
  entries.filter (fun entry => decide (entry.1 < key)) ++
    (key, value) :: entries.filter (fun entry => decide (key < entry.1))

/-- Take a key out. -/
def drop (key : K) (entries : List (K × V)) : List (K × V) :=
  entries.filter (fun entry => decide (entry.1 ≠ key))

/-! ## Entries around a key -/

theorem filter_lt_of_lt {key : K} {entries : List (K × V)}
    (below : ∀ entry ∈ entries, entry.1 < key) :
    entries.filter (fun entry => decide (entry.1 < key)) = entries ∧
      entries.filter (fun entry => decide (key < entry.1)) = [] := by
  constructor
  · rw [List.filter_eq_self]
    exact fun entry member => decide_eq_true (below entry member)
  · rw [List.filter_eq_nil_iff]
    intro entry member
    simpa using (below entry member).le

theorem filter_gt_of_gt {key : K} {entries : List (K × V)}
    (above : ∀ entry ∈ entries, key < entry.1) :
    entries.filter (fun entry => decide (entry.1 < key)) = [] ∧
      entries.filter (fun entry => decide (key < entry.1)) = entries := by
  constructor
  · rw [List.filter_eq_nil_iff]
    intro entry member
    simpa using (above entry member).le
  · rw [List.filter_eq_self]
    exact fun entry member => decide_eq_true (above entry member)

/-- Putting changes the part around the key only. -/
theorem put_append {key : K} {value : V} {before middle after : List (K × V)}
    (below : ∀ entry ∈ before, entry.1 < key) (above : ∀ entry ∈ after, key < entry.1) :
    put key value (before ++ middle ++ after) = before ++ put key value middle ++ after := by
  simp only [put, List.filter_append, (filter_lt_of_lt below).1, (filter_lt_of_lt below).2,
    (filter_gt_of_gt above).1, (filter_gt_of_gt above).2, List.nil_append, List.append_nil,
    List.append_assoc, List.cons_append]

/-- Dropping changes the part around the key only. -/
theorem drop_append {key : K} {before middle after : List (K × V)}
    (below : ∀ entry ∈ before, entry.1 < key) (above : ∀ entry ∈ after, key < entry.1) :
    drop key (before ++ middle ++ after) = before ++ drop key middle ++ after := by
  have same : ∀ part : List (K × V), (∀ entry ∈ part, entry.1 ≠ key) →
      part.filter (fun entry => decide (entry.1 ≠ key)) = part := by
    intro part others
    rw [List.filter_eq_self]
    exact fun entry member => decide_eq_true (others entry member)
  simp only [drop, List.filter_append, same before fun entry member => (below entry member).ne,
    same after fun entry member => (above entry member).ne']

/-- At a cut that has no entry for the key, the new entry goes in between. -/
theorem put_cut {key : K} {value : V} {before after : List (K × V)}
    (below : ∀ entry ∈ before, entry.1 < key) (above : ∀ entry ∈ after, key < entry.1) :
    put key value (before ++ after) = before ++ (key, value) :: after := by
  have cut : put key value (before ++ [] ++ after) = before ++ put key value [] ++ after :=
    put_append below above
  simpa [put] using cut

/-- At an entry for the key, the new entry takes its place. -/
theorem put_hit {key : K} {value old : V} {before after : List (K × V)}
    (below : ∀ entry ∈ before, entry.1 < key) (above : ∀ entry ∈ after, key < entry.1) :
    put key value (before ++ (key, old) :: after) = before ++ (key, value) :: after := by
  have hit : put key value (before ++ [(key, old)] ++ after) =
      before ++ put key value [(key, old)] ++ after :=
    put_append below above
  simpa [put] using hit

theorem drop_hit {key : K} {old : V} {before after : List (K × V)}
    (below : ∀ entry ∈ before, entry.1 < key) (above : ∀ entry ∈ after, key < entry.1) :
    drop key (before ++ (key, old) :: after) = before ++ after := by
  have hit : drop key (before ++ [(key, old)] ++ after) =
      before ++ drop key [(key, old)] ++ after :=
    drop_append below above
  simpa [drop] using hit

/-- Dropping a key first does not matter to what is put under it. -/
theorem put_drop {key : K} {value : V} {entries : List (K × V)} :
    put key value (drop key entries) = put key value entries := by
  have below : ∀ entry : K × V, (decide (entry.1 < key) && decide (entry.1 ≠ key)) =
      decide (entry.1 < key) := by
    intro entry
    rw [← Bool.decide_and, decide_eq_decide]
    exact ⟨And.left, fun less => ⟨less, less.ne⟩⟩
  have above : ∀ entry : K × V, (decide (key < entry.1) && decide (entry.1 ≠ key)) =
      decide (key < entry.1) := by
    intro entry
    rw [← Bool.decide_and, decide_eq_decide]
    exact ⟨And.left, fun less => ⟨less, less.ne'⟩⟩
  simp only [put, drop, List.filter_filter, below, above]

/-! ## Entries as a function -/

theorem lookup_eq_none_iff {key : K} {entries : List (K × V)} :
    lookup key entries = none ↔ ∀ entry ∈ entries, entry.1 ≠ key := by
  simp [lookup]

/-- In an ascending list the value of a key is the value of its entry. -/
theorem lookup_eq_some_iff {key : K} {value : V} {entries : List (K × V)}
    (ascending : Ascending entries) :
    lookup key entries = some value ↔ (key, value) ∈ entries := by
  induction entries with
  | nil => simp [lookup]
  | cons entry entries ih =>
      obtain ⟨first, rest⟩ := List.pairwise_cons.mp ascending
      by_cases same : entry.1 = key
      · have absent : (key, value) ∉ entries := fun member =>
          absurd (first _ member) (by simp [same])
        obtain ⟨entryKey, entryValue⟩ := entry
        simp only at same
        subst same
        simp [lookup, absent, eq_comm]
      · have other : (key, value) ≠ entry := fun equal => same (by rw [← equal])
        have skipped : lookup key (entry :: entries) = lookup key entries := by
          simp [lookup, same]
        rw [skipped, ih rest, List.mem_cons]
        simp [other]

theorem mem_put {key : K} {value : V} {entries : List (K × V)} {entry : K × V} :
    entry ∈ put key value entries ↔ entry = (key, value) ∨ entry ∈ entries ∧ entry.1 ≠ key := by
  simp only [put, List.mem_append, List.mem_filter, decide_eq_true_eq, List.mem_cons]
  constructor
  · rintro (⟨member, less⟩ | same | ⟨member, greater⟩)
    · exact .inr ⟨member, less.ne⟩
    · exact .inl same
    · exact .inr ⟨member, greater.ne'⟩
  · rintro (same | ⟨member, other⟩)
    · exact .inr (.inl same)
    · rcases lt_or_gt_of_ne other with less | greater
      · exact .inl ⟨member, less⟩
      · exact .inr (.inr ⟨member, greater⟩)

theorem mem_drop {key : K} {entries : List (K × V)} {entry : K × V} :
    entry ∈ drop key entries ↔ entry ∈ entries ∧ entry.1 ≠ key := by
  simp [drop]

theorem ascending_put {key : K} {value : V} {entries : List (K × V)}
    (ascending : Ascending entries) : Ascending (put key value entries) := by
  unfold Ascending put
  rw [List.pairwise_append, List.pairwise_cons]
  refine ⟨ascending.filter _, ⟨?_, ascending.filter _⟩, ?_⟩
  · intro entry member
    simpa using (List.mem_filter.mp member).2
  · intro first member second later
    have less : first.1 < key := by simpa using (List.mem_filter.mp member).2
    rcases List.mem_cons.mp later with rfl | later
    · exact less
    · have greater : key < second.1 := by simpa using (List.mem_filter.mp later).2
      exact less.trans greater

theorem ascending_drop {key : K} {entries : List (K × V)} (ascending : Ascending entries) :
    Ascending (drop key entries) :=
  ascending.filter _

/-- Putting is the update of the map. -/
theorem lookup_put {key : K} {value : V} {entries : List (K × V)} (ascending : Ascending entries)
    (other : K) :
    lookup other (put key value entries) =
      if other = key then some value else lookup other entries := by
  have put_ascending : Ascending (put key value entries) := ascending_put ascending
  split
  · next same =>
    subst same
    rw [lookup_eq_some_iff put_ascending, mem_put]
    exact .inl rfl
  · next different =>
    refine Option.ext fun found => ?_
    rw [lookup_eq_some_iff put_ascending, lookup_eq_some_iff ascending, mem_put]
    simp [different]

/-- Dropping is the removal from the map. -/
theorem lookup_drop {key : K} {entries : List (K × V)} (ascending : Ascending entries)
    (other : K) :
    lookup other (drop key entries) = if other = key then none else lookup other entries := by
  have drop_ascending : Ascending (drop key entries) := ascending_drop ascending
  split
  · next same =>
    subst same
    rw [lookup_eq_none_iff]
    exact fun entry member => (mem_drop.mp member).2
  · next different =>
    refine Option.ext fun found => ?_
    rw [lookup_eq_some_iff drop_ascending, lookup_eq_some_iff ascending, mem_drop]
    simp [different]

end Entries

/-- An ascending list is determined by its members. -/
theorem ascending_ext {first second : List (K × V)} (ascending : Ascending first)
    (ascending' : Ascending second)
    (same : ∀ key value, (key, value) ∈ first ↔ (key, value) ∈ second) : first = second := by
  have ordered : ∀ entries : List (K × V), Ascending entries → entries.Nodup := fun entries sorted =>
    sorted.imp fun {_ _} less equal => absurd less (by rw [equal]; exact lt_irrefl _)
  refine List.Perm.eq_of_pairwise ?_ ascending ascending' ?_
  · intro one two _ _ less greater
    exact absurd less greater.not_gt
  · exact (List.perm_ext_iff_of_nodup (ordered _ ascending) (ordered _ ascending')).mpr
      fun entry => same entry.1 entry.2

end Squrust.Foundation
