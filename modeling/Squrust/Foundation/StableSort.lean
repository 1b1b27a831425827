import Mathlib.Data.List.Perm.Basic
import Mathlib.Tactic.Common

/-!
# Stable sorts

What a stable sort is, apart from how it is computed: the items are those of the
input, they ascend, and items that compare equal stay in the order they had. There
is one such list for an input (`StablySorted.unique`), and merge sort gives it
(`stablySorted_sortBy`).

A comparison needs to be an order on the items of the input only: sorting does
not ask how it compares others (`sortBy_congr`).
-/

set_option autoImplicit false

namespace Squrust.Foundation

variable {α : Type} {cmp : α → α → Ordering} {input output : List α}

/-- The output is the input in ascending order, and equal items are in the order
they had. -/
structure StablySorted (cmp : α → α → Ordering) (input output : List α) : Prop where
  perm : output.Perm input
  ascending : output.Pairwise fun a b => (cmp a b).isLE
  stable : ∀ a, output.filter (cmp a · = .eq) = input.filter (cmp a · = .eq)

/-- Sort by a comparison; equal items stay in order. -/
def sortBy (cmp : α → α → Ordering) (items : List α) : List α :=
  items.mergeSort fun a b => (cmp a b).isLE

theorem sortBy_congr {cmp' : α → α → Ordering}
    (same : ∀ a ∈ input, ∀ b ∈ input, cmp a b = cmp' a b) :
    sortBy cmp input = sortBy cmp' input := by
  have mapped : (sortBy cmp input).map id = sortBy cmp' (input.map id) :=
    List.map_mergeSort fun a inA b inB => by rw [same a inA b inB]; rfl
  rwa [List.map_id, List.map_id] at mapped

theorem map_sortBy {β : Type} {cmp' : β → β → Ordering} {f : α → β}
    (same : ∀ a ∈ input, ∀ b ∈ input, cmp a b = cmp' (f a) (f b)) :
    (sortBy cmp input).map f = sortBy cmp' (input.map f) :=
  List.map_mergeSort fun a inA b inB => by rw [same a inA b inB]

section Order

variable [Std.TransCmp cmp]

/-- Merge sort is a stable sort. -/
theorem stablySorted_sortBy (input : List α) : StablySorted cmp input (sortBy cmp input) := by
  have trans : ∀ a b c, (cmp a b).isLE → (cmp b c).isLE → (cmp a c).isLE :=
    fun _ _ _ => Std.TransCmp.isLE_trans
  have total : ∀ a b, (cmp a b).isLE || (cmp b a).isLE := by
    intro a b
    rw [@Std.OrientedCmp.eq_swap _ cmp _ b a]
    cases cmp a b with
    | lt => rfl
    | eq => rfl
    | gt => rfl
  have perm : (sortBy cmp input).Perm input := List.mergeSort_perm _ _
  refine ⟨perm, List.pairwise_mergeSort trans total _, fun a => ?_⟩
  -- The items equal to `a` are in order among themselves, so sorting keeps them as they are.
  have equal : (input.filter (cmp a · = .eq)).Pairwise fun b c => (cmp b c).isLE = true := by
    rw [List.pairwise_iff_forall_sublist]
    intro b c pair
    have isEqual : ∀ d ∈ input.filter (cmp a · = .eq), cmp a d = .eq := by
      intro d member
      simpa using (List.mem_filter.mp member).2
    have b_eq := isEqual b (pair.subset (by simp))
    have c_eq := isEqual c (pair.subset (by simp))
    have back := Std.OrientedCmp.eq_symm b_eq
    exact trans b a c (by rw [back]; rfl) (by rw [c_eq]; rfl)
  have kept := List.sublist_mergeSort trans total equal (@List.filter_sublist _ _ input)
  have inside := kept.filter (cmp a · = .eq)
  simp only [List.filter_filter, Bool.and_self] at inside
  exact (inside.eq_of_length_le (Nat.le_of_eq (perm.filter _).length_eq)).symm

/-- There is one stable sort of an input. -/
theorem StablySorted.unique {output' : List α} (sorted : StablySorted cmp input output)
    (sorted' : StablySorted cmp input output') : output = output' := by
  have perm := sorted.perm.trans sorted'.perm.symm
  have stable : ∀ a, output.filter (cmp a · = .eq) = output'.filter (cmp a · = .eq) :=
    fun a => (sorted.stable a).trans (sorted'.stable a).symm
  have ascending := sorted.ascending
  have ascending' := sorted'.ascending
  clear sorted sorted'
  induction output generalizing output' with
  | nil => exact (List.nil_perm.mp perm).symm
  | cons a rest ih =>
      obtain ⟨b, rest', rfl⟩ : ∃ b rest', output' = b :: rest' := by
        cases output' with
        | nil => exact absurd perm.length_eq (by simp)
        | cons b rest' => exact ⟨b, rest', rfl⟩
      rw [List.pairwise_cons] at ascending ascending'
      -- Each head is at most the other, so they are equal and the same item comes first.
      have forth : (cmp a b).isLE := by
        rcases List.mem_cons.mp (perm.symm.subset List.mem_cons_self) with rfl | later
        · rw [@Std.ReflCmp.compare_self _ cmp _]; rfl
        · exact ascending.1 b later
      have back : (cmp b a).isLE := by
        rcases List.mem_cons.mp (perm.subset List.mem_cons_self) with rfl | later
        · rw [@Std.ReflCmp.compare_self _ cmp _]; rfl
        · exact ascending'.1 a later
      have equal : cmp a b = .eq := Std.OrientedCmp.isLE_antisymm forth back
      obtain rfl : a = b := by
        have heads := stable a
        simp only [List.filter_cons, Std.ReflCmp.compare_self, equal, decide_true, if_true,
          List.cons.injEq] at heads
        exact heads.1
      have tails := ih perm.cons_inv (fun c => ?_) ascending.2 ascending'.2
      · rw [tails]
      · have both := stable c
        simp only [List.filter_cons] at both
        split at both
        · exact (List.cons.inj both).2
        · exact both

/-- Items that compare unequal are in strictly ascending order when sorted. -/
theorem strictlyAscending_sortBy (distinct : input.Pairwise fun a b => cmp a b ≠ .eq) :
    (sortBy cmp input).Pairwise fun a b => cmp a b = .lt := by
  have sorted := @stablySorted_sortBy _ cmp _ input
  have symmetric : ∀ {a b}, cmp a b ≠ .eq → cmp b a ≠ .eq :=
    fun unequal equal => unequal (Std.OrientedCmp.eq_symm equal)
  refine (sorted.ascending.and ((sorted.perm.pairwise_iff symmetric).mpr distinct)).imp ?_
  rintro a b ⟨notAbove, unequal⟩
  cases order : cmp a b with
  | lt => rfl
  | eq => exact absurd order unequal
  | gt => rw [order] at notAbove; exact absurd notAbove Bool.false_ne_true

/-- Two strictly ascending lists of the same items are the same. -/
theorem strictlyAscending_ext (ascending : input.Pairwise fun a b => cmp a b = .lt)
    (ascending' : output.Pairwise fun a b => cmp a b = .lt) (same : ∀ a, a ∈ input ↔ a ∈ output) :
    input = output := by
  have irrefl : ∀ a, cmp a a ≠ .lt := by
    intro a below
    rw [@Std.ReflCmp.compare_self _ cmp _ a] at below
    exact Ordering.noConfusion below
  have nodup {items : List α} (ordered : items.Pairwise fun a b => cmp a b = .lt) : items.Nodup := by
    refine ordered.imp fun {a b} below equal => ?_
    subst equal
    exact irrefl a below
  refine ((List.perm_ext_iff_of_nodup (nodup ascending) (nodup ascending')).mpr same).eq_of_pairwise
    (fun a b _ _ below above => ?_) ascending ascending'
  exact absurd (Std.TransCmp.lt_trans below above) (irrefl a)

/-- The first of the least items, found by going along the list. -/
theorem foldl_first_eq_head?_sortBy
    (antisymm : ∀ a ∈ input, ∀ b ∈ input, cmp a b = .eq → a = b) :
    input.foldl (fun first item => if first.all fun best => cmp item best = .lt then some item
      else first) none = (sortBy cmp input).head? := by
  have sorted := @stablySorted_sortBy _ cmp _ input
  -- The best of the items so far is at most all of them.
  have least (rest : List α) : ∀ best, ∃ first,
      rest.foldl (fun first item => if first.all fun best => cmp item best = .lt then some item
        else first) (some best) = some first ∧ first ∈ best :: rest ∧
        ∀ a ∈ best :: rest, (cmp first a).isLE := by
    induction rest with
    | nil =>
        refine fun best => ⟨best, rfl, List.mem_cons_self, fun a member => ?_⟩
        rw [List.mem_singleton.mp member, @Std.ReflCmp.compare_self _ cmp _ best]
        rfl
    | cons item rest ih =>
        intro best
        rw [List.foldl_cons, Option.all_some]
        by_cases below : cmp item best = .lt
        · obtain ⟨first, found, member, atMost⟩ := ih item
          rw [if_pos (decide_eq_true below)]
          refine ⟨first, found, List.mem_cons_of_mem _ member, fun a inList => ?_⟩
          rcases List.mem_cons.mp inList with rfl | later
          · exact Std.TransCmp.isLE_trans (atMost item List.mem_cons_self) (by rw [below]; rfl)
          · exact atMost a later
        · obtain ⟨first, found, member, atMost⟩ := ih best
          rw [if_neg (by simpa using below)]
          refine ⟨first, found, ?_, fun a inList => ?_⟩
          · rcases List.mem_cons.mp member with rfl | later
            · exact List.mem_cons_self
            · exact List.mem_cons_of_mem _ (List.mem_cons_of_mem _ later)
          · rcases List.mem_cons.mp inList with rfl | later
            · exact atMost _ List.mem_cons_self
            · rcases List.mem_cons.mp later with rfl | later
              · refine Std.TransCmp.isLE_trans (atMost best List.mem_cons_self) ?_
                rw [@Std.OrientedCmp.eq_swap _ cmp _ best a]
                cases order : cmp a best with
                | lt => exact absurd order below
                | eq => rfl
                | gt => rfl
              · exact atMost a (List.mem_cons_of_mem _ later)
  cases input with
  | nil => rw [sortBy, List.mergeSort_nil, List.foldl_nil, List.head?_nil]
  | cons item rest =>
      obtain ⟨first, found, member, atMost⟩ := least rest item
      rw [List.foldl_cons, Option.all_none, if_pos rfl, found]
      cases ordered : sortBy cmp (item :: rest) with
      | nil => exact absurd (ordered ▸ sorted.perm.symm).length_eq (by simp)
      | cons head tail =>
          rw [ordered] at sorted
          have inHead : head ∈ item :: rest := sorted.perm.subset List.mem_cons_self
          have forth := atMost head inHead
          have back : (cmp head first).isLE := by
            rcases List.mem_cons.mp (sorted.perm.symm.subset member) with rfl | later
            · rw [@Std.ReflCmp.compare_self _ cmp _ first]
              rfl
            · exact (List.pairwise_cons.mp sorted.ascending).1 first later
          rw [antisymm first member head inHead (Std.OrientedCmp.isLE_antisymm forth back)]
          rfl

end Order

end Squrust.Foundation
