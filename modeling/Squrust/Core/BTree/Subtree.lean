import Squrust.Core.BTree.Overflow
import Squrust.Foundation.Spans

/-!
# What a tree holds

The invariant of the b-tree, as a relation between the pages of a store and the
map they stand for. `Subtree view depth low high id entries pages` says that the
page `id` is the root of a subtree of that depth for the rowids above `low` and
up to `high`, that it holds exactly `entries` in ascending order, and that it is
made of exactly the pages `pages`: its nodes and the overflow chains of its
records.

Leaves may be empty, as deletes leave them. A node only needs its separators in
order: the separator after a child bounds the child's rowids, it need not be one
of them.

What holds for one page holds for the subtree: pages outside `pages` do not
matter (`Subtree.congr`).
-/

set_option autoImplicit false

namespace Squrust.Core

open Squrust.Foundation

/-- The rows of a tree, in ascending order of their rowids. -/
abbrev Rows := List (Int64 × Record)

/-! ## Leaves -/

/-- A leaf cell with the record it stands for and the pages of its chain. -/
structure LeafSlot where
  cell : LeafCell
  record : Record
  chain : List PageId

namespace LeafSlot

/-- The cell stores the record: the first part inline, the rest in its chain. -/
structure Stored (view : View PageId PageData) (slot : LeafSlot) : Prop where
  payload : slot.cell.payloadLen.toNat = slot.record.val.length
  inlined : slot.cell.inlined = slot.record.val.take (inlineLenFor slot.record.val.length)
  spills : slot.cell.overflow = 0 ↔ slot.record.val.length ≤ maxInline
  chain : OverflowChain view slot.cell.overflow
    (slot.record.val.drop (inlineLenFor slot.record.val.length)) slot.chain

def entry (slot : LeafSlot) : Int64 × Record := (slot.cell.rowid, slot.record)

variable {view view' : View PageId PageData} {slot : LeafSlot}

theorem Stored.congr (stored : slot.Stored view) (same : ∀ id ∈ slot.chain, view' id = view id) :
    slot.Stored view' where
  payload := stored.payload
  inlined := stored.inlined
  spills := stored.spills
  chain := stored.chain.congr same

theorem Stored.shaped (stored : slot.Stored view) : slot.cell.Shaped := by
  refine ⟨?_, by rw [stored.spills, stored.payload]⟩
  rw [stored.inlined, stored.payload, List.length_take]
  refine Nat.min_eq_left ?_
  by_cases short : slot.record.val.length ≤ maxInline
  · exact (inlineLenFor_of_le short).le
  · exact (inlineLenFor_lt (not_le.mp short)).le

end LeafSlot

/-- Cells, the rows they hold, and the pages of their chains. -/
def LeafHolds (view : View PageId PageData) (cells : List LeafCell) (entries : Rows)
    (owned : List PageId) : Prop :=
  ∃ slots : List LeafSlot, cells = slots.map LeafSlot.cell ∧ entries = slots.map LeafSlot.entry ∧
    owned = slots.flatMap LeafSlot.chain ∧ ∀ slot ∈ slots, slot.Stored view

/-! ## Subtrees -/

/-- What the node of a subtree holds, and the pages below it. -/
def Body (view : View PageId PageData) :
    Nat → Bound Int64 → Bound Int64 → Node → Rows → List PageId → Prop
  | 0, low, high, .leaf l, entries, owned =>
      low < high ∧ (∀ entry ∈ entries, InRange low high entry.1) ∧ Ascending entries ∧
        LeafHolds view l.cells entries owned
  | depth + 1, low, high, .interior n, entries, owned =>
      let child : ChildSpec Int64 Record PageId PageId := fun low high id entries pages =>
        ∃ node owned, Holds view id node ∧ Body view depth low high node entries owned ∧
          pages = id :: owned
      ∃ middle before last pages pages', Spans child low n.cells middle before pages ∧
        child middle high n.rightChild last pages' ∧ entries = before ++ last ∧
        owned = pages ++ pages'
  | _, _, _, _, _, _ => False

/-- A page, what the subtree below it holds, and the pages it is made of. -/
def Subtree (view : View PageId PageData) (depth : Nat) : ChildSpec Int64 Record PageId PageId :=
  fun low high id entries pages =>
    ∃ node owned, Holds view id node ∧ Body view depth low high node entries owned ∧
      pages = id :: owned

section Basics

variable {view view' : View PageId PageData} {depth : Nat} {low high : Bound Int64} {id : PageId}
  {node : Node} {entries : Rows} {pages owned : List PageId}

theorem body_leaf {l : LeafNode} :
    Body view 0 low high (.leaf l) entries owned ↔
      low < high ∧ (∀ entry ∈ entries, InRange low high entry.1) ∧ Ascending entries ∧
        LeafHolds view l.cells entries owned := Iff.rfl

theorem body_interior {n : InteriorNode} :
    Body view (depth + 1) low high (.interior n) entries owned ↔
      ∃ middle before last pages pages', Spans (Subtree view depth) low n.cells middle before pages ∧
        Subtree view depth middle high n.rightChild last pages' ∧ entries = before ++ last ∧
        owned = pages ++ pages' := Iff.rfl

/-- A subtree of depth 0 is a leaf. -/
theorem Body.leaf_of_zero (body : Body view 0 low high node entries owned) :
    ∃ l, node = .leaf l := by
  cases node with
  | leaf l => exact ⟨l, rfl⟩
  | interior n => exact absurd body (by simp [Body])

/-- A deeper subtree is an interior node. -/
theorem Body.interior_of_succ (body : Body view (depth + 1) low high node entries owned) :
    ∃ n, node = .interior n := by
  cases node with
  | leaf l => exact absurd body (by simp [Body])
  | interior n => exact ⟨n, rfl⟩

/-- A node of a tree has the shape its page keeps. -/
theorem Body.shaped (body : Body view depth low high node entries owned) : node.Shaped := by
  cases depth with
  | zero =>
      obtain ⟨l, rfl⟩ := body.leaf_of_zero
      obtain ⟨_, _, _, slots, cells, _, _, stored⟩ := body
      intro cell member
      rw [cells] at member
      obtain ⟨slot, inSlots, rfl⟩ := List.mem_map.mp member
      exact (stored slot inSlots).shaped
  | succ depth =>
      obtain ⟨n, rfl⟩ := body.interior_of_succ
      trivial

/-- Subtrees hold ascending rows of their own, non-empty ranges. -/
theorem Subtree.ranged (view : View PageId PageData) (depth : Nat) :
    Ranged (Subtree view depth) := by
  induction depth with
  | zero =>
      have leaf : ∀ {low high id entries pages}, Subtree view 0 low high id entries pages →
          low < high ∧ (∀ entry ∈ entries, InRange low high entry.1) ∧ Ascending entries := by
        rintro low high id entries pages ⟨node, owned, _, body, _⟩
        obtain ⟨l, rfl⟩ := body.leaf_of_zero
        exact ⟨body.1, body.2.1, body.2.2.1⟩
      exact ⟨fun subtree => (leaf subtree).1, fun subtree => (leaf subtree).2.1,
        fun subtree => (leaf subtree).2.2⟩
  | succ depth ih =>
      have interior : ∀ {low high id entries pages}, Subtree view (depth + 1) low high id entries pages →
          low < high ∧ (∀ entry ∈ entries, InRange low high entry.1) ∧ Ascending entries := by
        rintro low high id entries pages ⟨node, owned, _, body, _⟩
        obtain ⟨n, rfl⟩ := body.interior_of_succ
        obtain ⟨middle, before, last, _, _, spans, right, rfl, _⟩ := body_interior.mp body
        have less := ih.lt right
        have order := spans.le ih
        refine ⟨order.trans_lt less, ?_, ?_⟩
        · intro entry member
          rcases List.mem_append.mp member with here | there
          · exact ⟨(spans.inRange ih entry here).1,
              (spans.inRange ih entry here).2.trans less.le⟩
          · exact ⟨order.trans_lt (ih.inRange right entry there).1,
              (ih.inRange right entry there).2⟩
        · exact Spans.ascending_append (spans.ascending ih) (ih.ascending right) (spans.inRange ih)
            (ih.inRange right)
      exact ⟨fun subtree => (interior subtree).1, fun subtree => (interior subtree).2.1,
        fun subtree => (interior subtree).2.2⟩

theorem LeafHolds.congr {cells : List LeafCell} (holds : LeafHolds view cells entries owned)
    (same : ∀ id ∈ owned, view' id = view id) : LeafHolds view' cells entries owned := by
  obtain ⟨slots, rfl, rfl, rfl, stored⟩ := holds
  refine ⟨slots, rfl, rfl, rfl, fun slot member => (stored slot member).congr fun id inChain => ?_⟩
  exact same id (List.mem_flatMap.mpr ⟨slot, member, inChain⟩)

/-- Only the pages of a subtree matter. -/
theorem Subtree.congr (subtree : Subtree view depth low high id entries pages)
    (same : ∀ id ∈ pages, view' id = view id) : Subtree view' depth low high id entries pages := by
  induction depth generalizing low high id entries pages with
  | zero =>
      obtain ⟨node, owned, holds, body, rfl⟩ := subtree
      obtain ⟨l, rfl⟩ := body.leaf_of_zero
      obtain ⟨less, ranges, ascending, cells⟩ := body
      exact ⟨_, owned, holds.congr (same _ List.mem_cons_self), ⟨less, ranges, ascending,
        cells.congr fun id member => same id (List.mem_cons_of_mem _ member)⟩, rfl⟩
  | succ depth ih =>
      obtain ⟨node, owned, holds, body, rfl⟩ := subtree
      obtain ⟨n, rfl⟩ := body.interior_of_succ
      obtain ⟨middle, before, last, pages, pages', spans, right, rfl, rfl⟩ := body_interior.mp body
      have below : ∀ id ∈ pages ++ pages', view' id = view id := fun id member =>
        same id (List.mem_cons_of_mem _ member)
      refine ⟨_, _, holds.congr (same _ List.mem_cons_self), body_interior.mpr
        ⟨middle, before, last, pages, pages', ?_, ?_, rfl, rfl⟩, rfl⟩
      · exact spans.imp fun within child => ih child fun id member =>
          below id (List.mem_append_left _ (within id member))
      · exact ih right fun id member => below id (List.mem_append_right _ member)

theorem Body.congr (body : Body view depth low high node entries owned)
    (same : ∀ id ∈ owned, view' id = view id) : Body view' depth low high node entries owned := by
  cases depth with
  | zero =>
      obtain ⟨l, rfl⟩ := body.leaf_of_zero
      obtain ⟨less, ranges, ascending, cells⟩ := body
      exact ⟨less, ranges, ascending, cells.congr same⟩
  | succ depth =>
      obtain ⟨n, rfl⟩ := body.interior_of_succ
      obtain ⟨middle, before, last, pages, pages', spans, right, rfl, rfl⟩ := body_interior.mp body
      refine body_interior.mpr ⟨middle, before, last, pages, pages', ?_, ?_, rfl, rfl⟩
      · exact spans.imp fun within child => Subtree.congr child fun id member =>
          same id (List.mem_append_left _ (within id member))
      · exact Subtree.congr right fun id member => same id (List.mem_append_right _ member)

/-- The pages of a subtree are in use. -/
theorem Subtree.live (subtree : Subtree view depth low high id entries pages) :
    ∀ id ∈ pages, view id ≠ .free := by
  induction depth generalizing low high id entries pages with
  | zero =>
      obtain ⟨node, owned, holds, body, rfl⟩ := subtree
      obtain ⟨l, rfl⟩ := body.leaf_of_zero
      obtain ⟨_, _, _, slots, _, _, rfl, stored⟩ := body
      intro other member
      rcases List.mem_cons.mp member with rfl | member
      · exact holds.live
      · obtain ⟨slot, inSlots, inChain⟩ := List.mem_flatMap.mp member
        exact (stored slot inSlots).chain.live other inChain
  | succ depth ih =>
      obtain ⟨node, owned, holds, body, rfl⟩ := subtree
      obtain ⟨n, rfl⟩ := body.interior_of_succ
      obtain ⟨middle, before, last, pages, pages', spans, right, rfl, rfl⟩ := body_interior.mp body
      have children : ∀ other ∈ pages, view other ≠ .free := spans.forall_cells ih
      intro other member
      rcases List.mem_cons.mp member with rfl | member
      · exact holds.live
      · rcases List.mem_append.mp member with here | there
        · exact children other here
        · exact ih right other there

end Basics

end Squrust.Core
