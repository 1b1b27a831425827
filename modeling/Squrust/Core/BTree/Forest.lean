import Squrust.Core.BTree.RowMap
import Mathlib.Logic.Function.Basic

/-!
# Several trees on one store

The trees of a database share its pages and have none in common (`Forest`). What
changes one of them leaves the others as they are (`Forest.change`), and a new one
is made of pages that were free (`Forest.plant`).
-/

set_option autoImplicit false

namespace Squrust.Core

open Squrust.Foundation

namespace BTree

/-- The rows of a tree, and the pages it is made of. -/
structure Extent where
  rows : Rows
  pages : List PageId

variable {ι : Type} {view view' : View PageId PageData} {root : PageId} {rows : Rows}
  {pages pages' : List PageId}

theorem Tree.congr (tree : Tree view root rows pages) (same : ∀ id ∈ pages, view' id = view id) :
    Tree view' root rows pages := by
  obtain ⟨depth, subtree, distinct⟩ := tree
  exact ⟨depth, subtree.congr same, distinct⟩

theorem Tree.root_live (tree : Tree view root rows pages) : view root ≠ .free := by
  obtain ⟨depth, ⟨node, owned, holds, _, _⟩, _⟩ := tree
  exact holds.live

/-- Pages in use that are not the tree's are left alone by what changes the tree. -/
theorem Tree.kept (tree : Tree view root rows pages) {old new : List PageId}
    (replaces : Replaces view view' old new) (apart : ∀ id ∈ pages, id ∉ old) :
    Tree view' root rows pages ∧ ∀ id ∈ pages, id ∉ new := by
  refine ⟨tree.congr fun id member => ?_, fun id member => ?_⟩
  · exact (replaces.kept (tree.live id member) (apart id member)).2
  · exact (replaces.kept (tree.live id member) (apart id member)).1

/-- The trees with these roots are on the store, with no page in common. -/
structure Forest (view : View PageId PageData) (rootOf : ι → Option PageId) (extent : ι → Extent) :
    Prop where
  tree : ∀ i root, rootOf i = some root → Tree view root (extent i).rows (extent i).pages
  apart : ∀ i j, i ≠ j → (rootOf i).isSome → (rootOf j).isSome →
    ∀ id ∈ (extent i).pages, id ∉ (extent j).pages

namespace Forest

variable {rootOf rootOf' : ι → Option PageId} {extent : ι → Extent}

/-- Only the pages of the trees matter. -/
theorem congr (forest : Forest view rootOf extent)
    (same : ∀ i, (rootOf i).isSome → ∀ id ∈ (extent i).pages, view' id = view id) :
    Forest view' rootOf extent where
  tree i root known :=
    (forest.tree i root known).congr (same i (Option.isSome_iff_exists.mpr ⟨root, known⟩))
  apart := forest.apart

/-- Some of the trees. -/
theorem part (forest : Forest view rootOf extent)
    (among : ∀ i root, rootOf' i = some root → rootOf i = some root) : Forest view rootOf' extent where
  tree i root known := forest.tree i root (among i root known)
  apart i j different first second := by
    obtain ⟨root, known⟩ := Option.isSome_iff_exists.mp first
    obtain ⟨root', known'⟩ := Option.isSome_iff_exists.mp second
    exact forest.apart i j different (Option.isSome_iff_exists.mpr ⟨root, among i root known⟩)
      (Option.isSome_iff_exists.mpr ⟨root', among j root' known'⟩)

variable [DecidableEq ι]

/-- A tree takes the place of the one of its name, or of none: it is made of the pages that one
had and of pages that were free. -/
theorem replace (forest : Forest view rootOf extent) {i : ι} {old : List PageId}
    (replaces : Replaces view view' old pages') (tree : Tree view' root rows pages')
    (apart : ∀ j, j ≠ i → (rootOf j).isSome → ∀ id ∈ (extent j).pages, id ∉ old) :
    Forest view' (Function.update rootOf i (some root)) (Function.update extent i ⟨rows, pages'⟩) := by
  have others : ∀ j, j ≠ i → ∀ root', rootOf j = some root' →
      Tree view' root' (extent j).rows (extent j).pages ∧ ∀ id ∈ (extent j).pages, id ∉ pages' := by
    intro j different root' known
    exact (forest.tree j root' known).kept replaces
      (apart j different (Option.isSome_iff_exists.mpr ⟨root', known⟩))
  refine ⟨fun j root' known => ?_, fun j k different first second id member inside => ?_⟩
  · by_cases here : j = i
    · subst here
      rw [Function.update_self] at known ⊢
      obtain rfl := Option.some.inj known
      exact tree
    · rw [Function.update_of_ne here] at known ⊢
      exact (others j here root' known).1
  · by_cases here : j = i
    · subst here
      rw [Function.update_of_ne (Ne.symm different)] at second inside
      rw [Function.update_self] at member
      obtain ⟨root', known⟩ := Option.isSome_iff_exists.mp second
      exact (others k (Ne.symm different) root' known).2 id inside member
    · rw [Function.update_of_ne here] at first member
      obtain ⟨root', known⟩ := Option.isSome_iff_exists.mp first
      by_cases there : k = i
      · subst there
        rw [Function.update_self] at inside
        exact (others j here root' known).2 id member inside
      · rw [Function.update_of_ne there] at second inside
        exact forest.apart j k different first second id member inside

/-- **A change** of one tree. -/
theorem change (forest : Forest view rootOf extent) {i : ι} (known : rootOf i = some root)
    (replaces : Replaces view view' (extent i).pages pages') (tree : Tree view' root rows pages') :
    Forest view' rootOf (Function.update extent i ⟨rows, pages'⟩) := by
  have replaced := forest.replace (i := i) replaces tree fun j different present =>
    forest.apart j i different present (Option.isSome_iff_exists.mpr ⟨root, known⟩)
  rwa [← known, Function.update_eq_self] at replaced

/-- **A new tree** on pages that were free. -/
theorem plant (forest : Forest view rootOf extent) (i : ι) (replaces : Replaces view view' [] pages')
    (tree : Tree view' root rows pages') :
    Forest view' (Function.update rootOf i (some root)) (Function.update extent i ⟨rows, pages'⟩) :=
  forest.replace replaces tree fun _ _ _ _ _ => List.not_mem_nil

end Forest

end BTree

end Squrust.Core
