import Squrust.Core.BTree.NodeCodec

/-!
# The layout of a written page

Where the cells of a node stand on its page: packed against the end, one behind
the other, in key order, and each pointer gives the place of its cell. The header
and the pointers end before the first cell. On page 1 the file header in front
of them is kept.
-/

set_option autoImplicit false

namespace Squrust.Core

open Squrust.Foundation

namespace Node

/-- Where the `i`-th cell of a node starts on its page. -/
def cellOffset (node : Node) (i : Nat) : Nat :=
  node.cellStart + ((node.cellBytes.take i).map List.length).sum

/-- Where the pointers of a node start on a page. -/
def pointersStart (node : Node) (pageId : PageId) : Nat := headerOffset pageId + node.heading.length

/-! ## One cell behind the other -/

theorem cellOffset_succ {node : Node} {i : Nat} {cell : Bytes} (at_i : node.cellBytes[i]? = some cell) :
    node.cellOffset (i + 1) = node.cellOffset i + cell.length := by
  obtain ⟨within, rfl⟩ := List.getElem?_eq_some_iff.mp at_i
  have one : node.cellBytes.take (i + 1) = node.cellBytes.take i ++ [node.cellBytes[i]] := by
    rw [List.take_succ, at_i, Option.toList_some]
  simp only [cellOffset, one, List.map_append, List.sum_append, List.map_cons, List.map_nil,
    List.sum_cons, List.sum_nil, Nat.add_zero, Nat.add_assoc]

theorem cellOffset_mono {node : Node} {i j : Nat} (le : i ≤ j) :
    node.cellOffset i ≤ node.cellOffset j := by
  have front : node.cellBytes.take i = (node.cellBytes.take j).take i := by
    rw [List.take_take, Nat.min_eq_left le]
  have whole := List.take_append_drop i (node.cellBytes.take j)
  have sums := congrArg (fun cells => (cells.map List.length).sum) whole
  simp only [List.map_append, List.sum_append, ← front] at sums
  simp only [cellOffset]
  omega

/-- The last cell ends with the page. -/
theorem cellOffset_length {node : Node} {pageId : PageId} (fits : node.fits pageId = true) :
    node.cellOffset node.cellBytes.length = pageSize := by
  have room := room_of_fits fits
  have all : (node.cellBytes.map List.length).sum = node.cellBytes.flatten.length :=
    List.length_flatten.symm
  rw [cellOffset, List.take_length, all, cellStart]
  omega

/-! ## Reading one pointer and one cell -/

/-- The `i`-th pointer is the place of the `i`-th cell. -/
theorem Reads.pointer {data : PageData} {ptr cellPos : Nat} {cells : List Bytes}
    (reads : Reads data ptr (pointers cellPos cells)) {i : Nat} (within : i < cells.length) :
    Reads data (ptr + 2 * i) (bigEndian 2 (cellPos + ((cells.take i).map List.length).sum)) := by
  induction cells generalizing ptr cellPos i with
  | nil => cases within
  | cons cell cells ih =>
      rw [pointers] at reads
      cases i with
      | zero => exact reads.left
      | succ i =>
          have rest := ih reads.right (Nat.lt_of_succ_lt_succ within)
          have place : ptr + (bigEndian 2 cellPos).length + 2 * i = ptr + 2 * (i + 1) := by
            rw [length_bigEndian]
            omega
          rw [place, Nat.add_assoc cellPos] at rest
          exact rest

/-- The `i`-th cell stands behind those before it. -/
theorem Reads.cell {data : PageData} {pos : Nat} {cells : List Bytes} {i : Nat} {cell : Bytes}
    (reads : Reads data pos cells.flatten) (at_i : cells[i]? = some cell) :
    Reads data (pos + ((cells.take i).map List.length).sum) cell := by
  induction cells generalizing pos i with
  | nil => cases at_i
  | cons first cells ih =>
      rw [List.flatten_cons] at reads
      cases i with
      | zero =>
          obtain rfl := Option.some.inj at_i
          exact reads.left
      | succ i =>
          have rest := ih reads.right at_i
          rw [Nat.add_assoc] at rest
          exact rest

/-! ## The page as a whole -/

/-- The layout of a node on a page: the pointers end before the first cell, each
pointer gives the place of its cell, and a cell ends where the next one starts, the
last one with the page. -/
structure LaidOut (node : Node) (pageId : PageId) (data : PageData) : Prop where
  apart : node.pointersStart pageId + 2 * node.cellBytes.length ≤ node.cellOffset 0
  pointer : ∀ i, i < node.cellBytes.length →
    readU16 data (node.pointersStart pageId + 2 * i) = .ok (node.cellOffset i)
  cell : ∀ i cell, node.cellBytes[i]? = some cell →
    data.slice (node.cellOffset i) cell.length = .ok cell ∧
      node.cellOffset i + cell.length = node.cellOffset (i + 1)
  last : node.cellOffset node.cellBytes.length = pageSize

/-- Two cells of a node do not overlap. -/
theorem LaidOut.disjoint {node : Node} {pageId : PageId} {data : PageData}
    (laidOut : node.LaidOut pageId data) {i j : Nat} {cell : Bytes} (before : i < j)
    (at_i : node.cellBytes[i]? = some cell) :
    node.cellOffset i + cell.length ≤ node.cellOffset j := by
  rw [(laidOut.cell i cell at_i).2]
  exact cellOffset_mono before

theorem laidOut_of_isImage {node : Node} {pageId : PageId} {data : PageData} {kept : Bytes}
    (image : node.IsImage kept data) (behind : kept.length = headerOffset pageId)
    (fits : node.fits pageId = true) : node.LaidOut pageId data := by
  have room := room_of_fits fits
  have first : node.cellOffset 0 = node.cellStart := rfl
  obtain ⟨gap, bytes⟩ := image
  have size := congrArg List.length bytes
  rw [data.property] at size
  simp only [List.length_append, length_pointers, List.length_replicate, behind] at size
  have front : Reads data (node.pointersStart pageId) (pointers node.cellStart node.cellBytes) := by
    refine ⟨by simp only [pointersStart]; omega,
      List.replicate gap 0 ++ node.cellBytes.flatten, ?_⟩
    rw [bytes, List.append_assoc, List.append_assoc, List.drop_left']
    simp only [List.length_append, behind, pointersStart]
  have body : Reads data node.cellStart node.cellBytes.flatten := by
    refine ⟨Nat.sub_le _ _, [], ?_⟩
    rw [bytes, List.append_nil, List.drop_left']
    simp only [List.length_append, length_pointers, List.length_replicate, behind, cellStart]
    omega
  refine ⟨?_, ?_, ?_, cellOffset_length fits⟩
  · rw [first, cellStart, pointersStart]
    omega
  · intro i within
    have inside : node.cellOffset i ≤ pageSize := by
      rw [← cellOffset_length fits]
      exact cellOffset_mono within.le
    apply (front.pointer within).readU16
    exact inside.trans_lt (by decide)
  · intro i cell at_i
    exact ⟨(body.cell at_i).slice, (cellOffset_succ at_i).symm⟩

/-- **A written page.** A node that fits, with leaf cells of the shape the tree gives
them, is written without a panic, reads back as itself and is laid out without
overlaps behind the bytes that are kept: on page 1 the file header. -/
theorem serializeInto_roundTrip {node : Node} {page : RawPage} (fits : node.fits page.id = true)
    (shaped : node.Shaped) :
    ∃ written, node.serializeInto page = .ok ⟨page.id, written⟩ ∧
      parse ⟨page.id, written⟩ = .ok node ∧ node.LaidOut page.id written ∧
      written.val.take (headerOffset page.id) = page.data.val.take (headerOffset page.id) := by
  obtain ⟨written, wrote, image⟩ := serializeInto_of_fits fits
  have room := room_of_fits fits
  have behind : (page.data.val.take (headerOffset page.id)).length = headerOffset page.id := by
    rw [List.length_take, page.data.property]
    exact Nat.min_eq_left (by omega)
  refine ⟨written, wrote, parse_of_isImage image behind fits shaped,
    laidOut_of_isImage image behind fits, ?_⟩
  obtain ⟨gap, bytes⟩ := image
  rw [bytes]
  simp only [List.append_assoc]
  rw [List.take_left' behind]

/-- A leaf with one record, on page 1. -/
theorem serializeInto_roundTrip_page1 : ∃ written,
    (Node.leaf ⟨[⟨-1, 3, 0, [7, 8, 9]⟩]⟩).serializeInto (RawPage.new 1) = .ok ⟨1, written⟩ ∧
      parse ⟨1, written⟩ = .ok (.leaf ⟨[⟨-1, 3, 0, [7, 8, 9]⟩]⟩) := by
  have shaped : (Node.leaf ⟨[⟨-1, 3, 0, [7, 8, 9]⟩]⟩).Shaped := by
    intro cell member
    obtain rfl := List.mem_singleton.mp member
    exact ⟨by decide, by decide⟩
  obtain ⟨written, wrote, parsed, _, _⟩ :=
    @serializeInto_roundTrip _ (RawPage.new 1) (by decide) shaped
  exact ⟨written, wrote, parsed⟩

end Node

end Squrust.Core
