import Squrust.Core.BTree.MapSink

/-!
# Overflow chains

The part of a long record that is not on its leaf stands in a chain of pages,
each with a pointer to the next one and as much of the record as it can carry
(`OverflowChain`). A chain is read back in full (`readValueLoop_chain`), a
written chain is such a chain on pages that were free (`writeOverflow_ok`), and
freeing one gives back its pages (`freeOverflowChain_ok`).
-/

set_option autoImplicit false

namespace Squrust.Core

open Squrust.Foundation

/-- Page `first` starts a chain over the pages `ids` that carries `tail`. -/
inductive OverflowChain (view : View PageId PageData) : PageId → Bytes → List PageId → Prop where
  | nil : OverflowChain view 0 [] []
  | cons {id next : PageId} {data : PageData} {chunk tail : Bytes} {ids : List PageId}
      (real : id ≠ 0) (held : view id = .holds data)
      (content : Node.Reads data 0 (bigEndian 4 next.toNat ++ chunk))
      (most : chunk.length ≤ overflowCap) (full : chunk.length = overflowCap ∨ tail = [])
      (rest : OverflowChain view next tail ids) :
      OverflowChain view id (chunk ++ tail) (id :: ids)

namespace OverflowChain

variable {view view' : View PageId PageData} {first : PageId} {tail : Bytes} {ids : List PageId}

theorem congr (chain : OverflowChain view first tail ids)
    (same : ∀ id ∈ ids, view' id = view id) : OverflowChain view' first tail ids := by
  induction chain with
  | nil => exact .nil
  | cons real held content most full rest ih =>
      refine .cons real ((same _ List.mem_cons_self).trans held) content most full (ih ?_)
      exact fun id member => same id (List.mem_cons_of_mem _ member)

theorem live (chain : OverflowChain view first tail ids) : ∀ id ∈ ids, view id ≠ .free := by
  induction chain with
  | nil => simp
  | cons real held content most full rest ih =>
      intro id member
      rcases List.mem_cons.mp member with rfl | member
      · simp [held]
      · exact ih id member

theorem ne_zero (chain : OverflowChain view first tail ids) (some : tail ≠ []) : first ≠ 0 := by
  cases chain with
  | nil => exact absurd rfl some
  | cons real held content most full rest => exact real

/-- The pages of a chain are those that its pointers lead to. -/
theorem unique {tail' : Bytes} {ids' : List PageId} (chain : OverflowChain view first tail ids)
    (chain' : OverflowChain view first tail' ids') : ids = ids' := by
  induction chain generalizing tail' ids' with
  | nil =>
      cases chain' with
      | nil => rfl
      | cons real => exact absurd rfl real
  | @cons id next data chunk tail ids real held content most full rest ih =>
      cases chain' with
      | nil => exact absurd rfl real
      | @cons _ next' data' chunk' tail' ids' real' held' content' most' full' rest' =>
          obtain rfl := Slot.holds.inj (held.symm.trans held')
          have same : next = next' :=
            Except.ok.inj (content.left.readU32.symm.trans content'.left.readU32)
          subst same
          rw [ih rest']

end OverflowChain

namespace BTree

/-! ## Reading a chain -/

section Reading

variable {σ : Type} [PageSource σ] [MapSource σ]

/-- The loop collects the whole chain, with any budget that covers its pages. -/
theorem readValueLoop_chain {first : PageId} {tail : Bytes} {ids : List PageId}
    {pages : View PageId PageData} (chain : OverflowChain pages first tail ids) (cell : LeafCell)
    (store : σ) (out : Bytes) (seen : view store = pages)
    (total : out.length + tail.length = cell.payloadLen.toNat) :
    ∃ after, view after = view store ∧ ∀ fuel, ids.length < fuel →
      readValueLoop cell fuel first out store = .ok (out ++ tail) after := by
  induction chain generalizing store out with
  | nil =>
      refine ⟨store, rfl, fun fuel enough => ?_⟩
      obtain ⟨fuel, rfl⟩ : ∃ rounds, fuel = rounds + 1 := ⟨fuel - 1, by omega⟩
      rw [readValueLoop, if_neg (by simp), List.append_nil]
      rfl
  | @cons id next data chunk tail ids real held content most full rest ih =>
      obtain ⟨between, got, same⟩ := MapSource.getPage_held ((congrFun seen id).trans held)
      rw [List.length_append] at total
      obtain ⟨after, same', run⟩ := ih between (out ++ chunk) (same.trans seen)
        (by rw [List.length_append]; omega)
      refine ⟨after, same'.trans same, fun fuel enough => ?_⟩
      obtain ⟨fuel, rfl⟩ : ∃ rounds, fuel = rounds + 1 := ⟨fuel - 1, by omega⟩
      have pointer : Node.readU32 data 0 = .ok next := content.left.readU32
      have chunkLength : min (cell.payloadLen.toNat - out.length) overflowCap = chunk.length := by
        rcases full with whole | last
        · omega
        · rw [last, List.length_nil] at total
          omega
      have piece : data.slice 4 chunk.length = .ok chunk := by
        have behind := content.right
        rw [length_bigEndian] at behind
        exact behind.slice
      have inside : out.length ≤ cell.payloadLen.toNat := by omega
      rw [readValueLoop, if_pos real, Exec.bind_of_ok got]
      simp only [pointer, Exec.lift_ok_bind, if_pos inside, chunkLength, piece]
      rw [← List.append_assoc]
      exact run fuel (by simp only [List.length_cons] at enough; omega)

end Reading

variable {σ : Type} [PageSink σ] [MapSink σ]

/-! ## Freeing a chain -/

/-- The pages of a freed chain are free, the others as they were. -/
theorem freeOverflowChain_ok {first : PageId} {tail : Bytes} {ids : List PageId}
    {store after : Audited σ} {fuel : Nat} (chain : OverflowChain (view store) first tail ids)
    (distinct : ids.Nodup) (run : freeOverflowChain fuel first store = .ok () after) :
    Replaces (view store) (view after) ids [] := by
  induction fuel generalizing first tail ids store with
  | zero => simp [freeOverflowChain] at run
  | succ fuel ih =>
      cases chain with
      | nil =>
          rw [freeOverflowChain, if_neg (by simp), Exec.pure_eq_ok] at run
          rw [← run.2]
          exact .refl (by simp)
      | @cons _ next data chunk tail ids real held content most full rest =>
          rw [freeOverflowChain, if_pos real] at run
          simp only [Exec.bind_eq_ok, Exec.lift_eq_ok] at run
          obtain ⟨page, read, get, np, _, ⟨pointer, rfl⟩, _, freed, free, run⟩ := run
          obtain ⟨rfl, same⟩ := getPage_ok held get
          have pointer' : Node.readU32 data 0 = .ok next := content.left.readU32
          rw [pointer'] at pointer
          obtain rfl := Except.ok.inj pointer
          obtain ⟨notIn, distinct⟩ := List.nodup_cons.mp distinct
          have cleared : view freed = (view store).set first .free := by
            rw [MapSink.freePage_ok free (by rw [same]; simp [held]), same]
          have rest' : OverflowChain (view freed) next tail ids := rest.congr fun id member => by
            rw [cleared, View.set_of_ne (ne_of_mem_of_not_mem member notIn)]
          have one : Replaces (view store) (view freed) ([first] ++ ids) ([] ++ ids) :=
            (cleared ▸ Replaces.give).frame_right rest.live fun id member => by
              simp [ne_of_mem_of_not_mem member notIn]
          exact one.trans (ih rest' distinct run)

theorem releaseChain_ok {fuel : Nat} {freed : PageId} {tail : Bytes} {ids : List PageId}
    {store after : Audited σ} (chain : OverflowChain (view store) freed tail ids)
    (distinct : ids.Nodup) (run : releaseChain fuel freed store = .ok () after) :
    Replaces (view store) (view after) ids [] := by
  unfold releaseChain at run
  split at run
  · exact freeOverflowChain_ok chain distinct run
  · next none =>
    obtain ⟨_, rfl⟩ := Exec.pure_eq_ok.mp run
    cases chain with
    | nil => exact .refl (by simp)
    | cons real held content most full rest => exact absurd real none

/-! ## Writing a chain -/

/-- The pieces of a tail: all full but the last. -/
def Chunked : List Bytes → Prop
  | [] => True
  | chunk :: chunks => chunk.length ≤ overflowCap ∧
      (chunk.length = overflowCap ∨ chunks = []) ∧ Chunked chunks

theorem chunksUpTo_spec (n : Nat) (tail : Bytes) (short : tail.length ≤ n) :
    Chunked (chunksUpTo n tail) ∧ (chunksUpTo n tail).flatten = tail := by
  induction n generalizing tail with
  | zero =>
      obtain rfl := List.length_eq_zero_iff.mp (Nat.le_zero.mp short)
      exact ⟨trivial, rfl⟩
  | succ n ih =>
      rw [chunksUpTo]
      split
      · next empty => exact ⟨trivial, empty.symm⟩
      · next some =>
        have positive := List.length_pos_of_ne_nil some
        obtain ⟨chunked, whole⟩ := ih (tail.drop overflowCap) (by
          rw [List.length_drop]
          simp only [overflowCap, usable, pageSize]
          omega)
        refine ⟨⟨?_, ?_, chunked⟩, ?_⟩
        · rw [List.length_take]
          exact Nat.min_le_left _ _
        · by_cases long : overflowCap ≤ tail.length
          · left
            rw [List.length_take]
            exact Nat.min_eq_left long
          · right
            rw [List.drop_of_length_le (by omega)]
            cases n <;> simp [chunksUpTo]
        · rw [List.flatten_cons, whole, List.take_append_drop]

/-- The number of pages that a tail takes. -/
def pagesFor (length : Nat) : Nat := (length + (overflowCap - 1)) / overflowCap

theorem length_chunksUpTo (n : Nat) (tail : Bytes) (short : tail.length ≤ n) :
    (chunksUpTo n tail).length = pagesFor tail.length := by
  induction n generalizing tail with
  | zero =>
      obtain rfl := List.length_eq_zero_iff.mp (Nat.le_zero.mp short)
      rfl
  | succ n ih =>
      rw [chunksUpTo]
      split
      · next empty =>
        rw [empty]
        rfl
      · next some =>
        have positive := List.length_pos_of_ne_nil some
        rw [List.length_cons, ih (tail.drop overflowCap) (by
          rw [List.length_drop]
          simp only [overflowCap, usable, pageSize]
          omega), List.length_drop]
        simp only [pagesFor, overflowCap, usable, pageSize]
        omega

theorem allocAll_ok (chunks : List Bytes) {store after : Audited σ} {ids : List PageId}
    {used : PageId} (inUse : view store used ≠ .free)
    (run : allocAll chunks store = .ok ids after) :
    ids.length = chunks.length ∧ ids.Nodup ∧ (∀ id ∈ ids, id ≠ 0) ∧
      Replaces (view store) (view after) [] ids := by
  induction chunks generalizing store ids used with
  | nil =>
      rw [allocAll, Exec.pure_eq_ok] at run
      obtain ⟨rfl, rfl⟩ := run
      exact ⟨rfl, List.nodup_nil, by simp, .refl (by simp)⟩
  | cons chunk chunks ih =>
      simp only [allocAll, Exec.bind_eq_ok, Exec.pure_eq_ok] at run
      obtain ⟨id, between, alloc, others, _, rest, rfl, rfl⟩ := run
      obtain ⟨real, free, taken⟩ := MapSink.allocPage_ok inUse alloc
      have one : Replaces (view store) (view between) [] [id] := taken ▸ .take free (by simp)
      have live : view between id ≠ .free := one.held id List.mem_cons_self
      obtain ⟨count, distinct, nonzero, replaces⟩ := ih live rest
      have more := replaces.frame_cell live (by simp)
      refine ⟨by simp [count], ?_, ?_, ?_⟩
      · exact List.nodup_cons.mpr ⟨(replaces.kept live (by simp)).1, distinct⟩
      · simpa using ⟨real, nonzero⟩
      · exact one.trans more

/-- The pages of the chunks form a chain. -/
theorem putChunks_ok (ids : List PageId) (chunks : List Bytes) {store after : Audited σ}
    (run : putChunks ids chunks store = .ok () after) (count : ids.length = chunks.length)
    (chunked : Chunked chunks) (distinct : ids.Nodup) (nonzero : ∀ id ∈ ids, id ≠ 0)
    (live : ∀ id ∈ ids, view store id ≠ .free) :
    Replaces (view store) (view after) ids ids ∧
      OverflowChain (view after) (ids.headD 0) chunks.flatten ids := by
  induction ids generalizing chunks store with
  | nil =>
      obtain rfl := List.length_eq_zero_iff.mp count.symm
      rw [putChunks, Exec.pure_eq_ok] at run
      · obtain ⟨_, rfl⟩ := run
        exact ⟨.refl (by simp), .nil⟩
      · simp
  | cons id ids ih =>
      cases chunks with
      | nil => simp at count
      | cons chunk chunks =>
          obtain ⟨most, full, chunked⟩ := chunked
          obtain ⟨notIn, distinct⟩ := List.nodup_cons.mp distinct
          simp only [putChunks, Exec.bind_eq_ok, Exec.lift_eq_ok] at run
          obtain ⟨pointed, _, ⟨wrotePointer, rfl⟩, data, _, ⟨wroteChunk, rfl⟩, _, between, put,
            rest⟩ := run
          have written : view between = (view store).set id (.holds data) :=
            MapSink.putPage_ok put (live id List.mem_cons_self)
          have one : Replaces (view store) (view between) [id] [id] := written ▸ .write (by simp)
          obtain ⟨replaces, chain⟩ := ih chunks rest (by simpa using count) chunked distinct
            (fun other member => nonzero other (List.mem_cons_of_mem _ member))
            (fun other member => by
              rw [written, View.set_of_ne (ne_of_mem_of_not_mem member notIn)]
              exact live other (List.mem_cons_of_mem _ member))
          have held : view after id = .holds data := by
            rw [replaces.others id notIn notIn, written, View.set_self]
          -- the two copies go into the zeros of a fresh page
          have content : Node.Reads data 0 (bigEndian 4 (ids.headD 0).toNat ++ chunk) := by
            have fresh : Node.Layout (RawPage.new id).data [] [] pageSize 0 := by
              simp [Node.Layout, RawPage.new, PageData.zero]
            obtain ⟨first, wrote, layout⟩ := Node.layFront fresh
              (bigEndian 4 (ids.headD 0).toNat) (show List.length _ = 0 from rfl)
              (by rw [length_bigEndian]; decide)
            rw [wrote] at wrotePointer
            obtain rfl := Except.ok.inj wrotePointer
            obtain ⟨second, wrote', layout⟩ := Node.layFront layout chunk
              (show List.length _ = 4 by simp)
              (by simp only [overflowCap, usable] at most; rw [length_bigEndian]; exact most)
            rw [wrote'] at wroteChunk
            obtain rfl := Except.ok.inj wroteChunk
            exact ⟨Nat.zero_le _, _, by rw [List.drop_zero, layout, List.nil_append,
              List.append_assoc]⟩
          refine ⟨?_, ?_⟩
          · have first : Replaces (view store) (view between) ([id] ++ ids) ([id] ++ ids) :=
              one.frame_right (fun other member => live other (List.mem_cons_of_mem _ member))
                fun other member => by simp [ne_of_mem_of_not_mem member notIn]
            exact first.trans (replaces.frame_cell (by simp [written]) notIn)
          · refine .cons (nonzero id List.mem_cons_self) held content most ?_ chain
            rcases full with whole | last
            · exact .inl whole
            · exact .inr (by rw [last, List.flatten_nil])

/-- A written tail is a chain on pages that were free. -/
theorem writeOverflow_ok {tail : Bytes} {store after : Audited σ} {first used : PageId}
    (inUse : view store used ≠ .free) (run : writeOverflow tail store = .ok first after) :
    ∃ ids, ids.Nodup ∧ OverflowChain (view after) first tail ids ∧
      Replaces (view store) (view after) [] ids ∧ ids.length = pagesFor tail.length := by
  simp only [writeOverflow, Exec.bind_eq_ok, Exec.lift_eq_ok, Outcome.orPanic_eq_ok] at run
  obtain ⟨ids, between, alloc, _, _, put, head, rfl⟩ := run
  obtain ⟨chunked, whole⟩ := chunksUpTo_spec tail.length tail le_rfl
  obtain ⟨count, distinct, nonzero, taken⟩ := allocAll_ok _ inUse alloc
  obtain ⟨written, chain⟩ := putChunks_ok ids _ put count chunked distinct nonzero taken.held
  rw [whole, List.headD_eq_head?_getD, head, Option.getD_some] at chain
  exact ⟨ids, distinct, chain, taken.trans written,
    count.trans (length_chunksUpTo tail.length tail le_rfl)⟩

end BTree

end Squrust.Core
