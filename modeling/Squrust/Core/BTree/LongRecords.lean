import Squrust.Core.BTree.Insert
import Squrust.Core.BTree.Lookup
import Squrust.Core.BTree.MemStore

/-!
# Records from the writer to the reader and the freer

The three agree on every record. The cell that is made for it is read back as
the record, whatever its length; the part that is not inline takes as many pages
as it fills, in one chain; and freeing the chain frees these pages.

What was allocated and freed, and how often, is seen in a sink that keeps a list
of these calls (`Logged`). Nothing depends on the list.
-/

set_option autoImplicit false

namespace Squrust.Core

open Squrust.Foundation

/-- A sink, and the pages that it gave out and took back, in the order of the calls. -/
structure Logged (σ : Type) where
  sink : σ
  taken : List PageId
  freed : List PageId

namespace Logged

variable {σ α : Type}

def onSink (code : Exec σ StorageError α) : Exec (Logged σ) StorageError α :=
  Exec.onPart Logged.sink (fun sink logged => { logged with sink }) code

instance [PageSink σ] : PageSink (Logged σ) where
  getPage id := onSink (PageSource.getPage id)
  allocPage := do
    let id ← onSink PageSink.allocPage
    modify fun logged => { logged with taken := logged.taken ++ [id] }
    return id
  putPage page := onSink (PageSink.putPage page)
  freePage id := do
    onSink (PageSink.freePage id)
    modify fun logged => { logged with freed := logged.freed ++ [id] }

theorem onSink_eq_ok {code : Exec σ StorageError α} {value : α} {logged after : Logged σ} :
    onSink code logged = .ok value after ↔
      code logged.sink = .ok value after.sink ∧ after.taken = logged.taken ∧
        after.freed = logged.freed := by
  rw [onSink, Exec.onPart_eq_ok]
  constructor
  · rintro ⟨sink, run, rfl⟩
    exact ⟨run, rfl, rfl⟩
  · rintro ⟨run, taken, freed⟩
    exact ⟨after.sink, run, by rw [← taken, ← freed]⟩

variable [PageSink σ] {logged after : Logged σ} {id : PageId}

theorem taken_of_allocPage
    (run : (PageSink.allocPage : Exec (Logged σ) StorageError PageId) logged = .ok id after) :
    (PageSink.allocPage : Exec σ StorageError PageId) logged.sink = .ok id after.sink ∧
      after.taken = logged.taken ++ [id] ∧ after.freed = logged.freed := by
  obtain ⟨given, between, alloc, run⟩ := Exec.bind_eq_ok.mp run
  obtain ⟨sink, taken, freed⟩ := onSink_eq_ok.mp alloc
  obtain ⟨rfl, rfl⟩ := EStateM.Result.ok.inj run
  exact ⟨sink, by rw [← taken], freed⟩

theorem freePage_of_ok {sink : σ}
    (run : (PageSink.freePage id : Exec σ StorageError Unit) logged.sink = .ok () sink) :
    (PageSink.freePage id : Exec (Logged σ) StorageError Unit) logged =
      .ok () ⟨sink, logged.taken, logged.freed ++ [id]⟩ := by
  have inner : onSink (PageSink.freePage id) logged = .ok () ⟨sink, logged.taken, logged.freed⟩ :=
    onSink_eq_ok.mpr ⟨run, rfl, rfl⟩
  exact (Exec.bind_of_ok inner).trans rfl

theorem freePage_of_error {sink : σ} {fault : Fault StorageError}
    (run : (PageSink.freePage id : Exec σ StorageError Unit) logged.sink = .error fault sink) :
    (PageSink.freePage id : Exec (Logged σ) StorageError Unit) logged =
      .error fault ⟨sink, logged.taken, logged.freed⟩ := by
  have inner : onSink (PageSink.freePage id) logged = .error fault ⟨sink, logged.taken, logged.freed⟩ := by
    simp only [onSink, Exec.onPart, run]
  exact Exec.bind_of_error inner

instance [MapSink σ] : MapSink (Logged σ) where
  view logged := view logged.sink
  getPage_held := by
    intro logged id data held
    obtain ⟨sink, run, same⟩ := MapSource.getPage_held held
    exact ⟨⟨sink, logged.taken, logged.freed⟩, onSink_eq_ok.mpr ⟨run, rfl, rfl⟩, same⟩
  allocPage_ok inUse run := MapSink.allocPage_ok inUse (taken_of_allocPage run).1
  putPage_ok run := MapSink.putPage_ok (onSink_eq_ok.mp run).1
  freePage_ok := by
    intro logged after id run live
    cases freed : (PageSink.freePage id : Exec σ StorageError Unit) logged.sink with
    | error fault sink =>
        rw [freePage_of_error freed] at run
        cases run
    | ok done sink =>
        rw [freePage_of_ok freed] at run
        obtain ⟨-, rfl⟩ := EStateM.Result.ok.inj run
        exact MapSink.freePage_ok freed live

end Logged

namespace BTree

variable {σ : Type} [PageSink σ]

/-! ## The log of a chain -/

theorem allocAll_taken (chunks : List Bytes) {store after : Audited (Logged σ)} {ids : List PageId}
    (run : allocAll chunks store = .ok ids after) :
    after.sink.taken = store.sink.taken ++ ids ∧ after.sink.freed = store.sink.freed := by
  induction chunks generalizing store ids with
  | nil =>
      obtain ⟨rfl, rfl⟩ := Exec.pure_eq_ok.mp run
      exact ⟨(List.append_nil _).symm, rfl⟩
  | cons chunk chunks ih =>
      simp only [allocAll, Exec.bind_eq_ok, Exec.pure_eq_ok] at run
      obtain ⟨id, between, alloc, others, _, rest, rfl, rfl⟩ := run
      obtain ⟨-, taken, freed⟩ := Logged.taken_of_allocPage (Audited.onSink_eq_ok.mp alloc).1
      obtain ⟨taken', freed'⟩ := ih rest
      exact ⟨by rw [taken', taken, List.append_assoc, List.singleton_append], freed'.trans freed⟩

theorem putChunks_taken (ids : List PageId) (chunks : List Bytes) {store after : Audited (Logged σ)}
    (run : putChunks ids chunks store = .ok () after) :
    after.sink.taken = store.sink.taken ∧ after.sink.freed = store.sink.freed := by
  induction ids generalizing chunks store with
  | nil =>
      obtain ⟨-, rfl⟩ := Exec.pure_eq_ok.mp (by simpa only [putChunks] using run)
      exact ⟨rfl, rfl⟩
  | cons id ids ih =>
      cases chunks with
      | nil =>
          obtain ⟨-, rfl⟩ := Exec.pure_eq_ok.mp (by simpa only [putChunks] using run)
          exact ⟨rfl, rfl⟩
      | cons chunk chunks =>
          simp only [putChunks, Exec.bind_eq_ok, Exec.lift_eq_ok] at run
          obtain ⟨pointed, _, ⟨-, rfl⟩, data, _, ⟨-, rfl⟩, _, between, put, rest⟩ := run
          obtain ⟨-, taken, freed⟩ := Logged.onSink_eq_ok.mp (Audited.onSink_eq_ok.mp put).1
          obtain ⟨taken', freed'⟩ := ih chunks rest
          exact ⟨taken'.trans taken, freed'.trans freed⟩

variable [MapSink σ]

/-- The pages of a written chain are those that were allocated for it. -/
theorem writeOverflow_taken {tail : Bytes} {store after : Audited (Logged σ)} {first used : PageId}
    (inUse : view store used ≠ .free) (run : writeOverflow tail store = .ok first after) :
    ∃ ids, OverflowChain (view after) first tail ids ∧
      after.sink.taken = store.sink.taken ++ ids ∧ after.sink.freed = store.sink.freed := by
  simp only [writeOverflow, Exec.bind_eq_ok, Exec.lift_eq_ok, Outcome.orPanic_eq_ok] at run
  obtain ⟨ids, between, alloc, _, _, put, head, rfl⟩ := run
  obtain ⟨chunked, whole⟩ := chunksUpTo_spec tail.length tail le_rfl
  obtain ⟨count, distinct, nonzero, replaces⟩ := allocAll_ok _ inUse alloc
  obtain ⟨-, chain⟩ := putChunks_ok ids _ put count chunked distinct nonzero replaces.held
  rw [whole, List.headD_eq_head?_getD, head, Option.getD_some] at chain
  obtain ⟨taken, freed⟩ := allocAll_taken _ alloc
  obtain ⟨taken', freed'⟩ := putChunks_taken ids _ put
  exact ⟨ids, chain, taken'.trans taken, freed'.trans freed⟩

/-- The pages of a made cell's chain are those that were allocated for it. -/
theorem makeCell_taken {rowid : Int64} {record : Record} {cell : LeafCell} {used : PageId}
    {store after : Audited (Logged σ)} (inUse : view store used ≠ .free)
    (run : makeCell rowid record store = .ok cell after) :
    ∃ chain, LeafSlot.Stored (view after) ⟨cell, record, chain⟩ ∧ chain.Nodup ∧
      Replaces (view store) (view after) [] chain ∧
      chain.length = pagesFor (record.val.length - inlineLenFor record.val.length) ∧
      after.sink.taken = store.sink.taken ++ chain ∧ after.sink.freed = store.sink.freed := by
  obtain ⟨chain, -, stored, distinct, replaces, count⟩ := makeCell_ok inUse run
  refine ⟨chain, stored, distinct, replaces, count, ?_⟩
  have size : (UInt64.ofNat record.val.length).toNat = record.val.length :=
    UInt64.toNat_ofNat_of_lt' (record.property.trans (by decide))
  unfold makeCell at run
  simp only [size] at run
  split at run
  · next short =>
    obtain ⟨rfl, rfl⟩ := Exec.pure_eq_ok.mp run
    rw [inlineLenFor_of_le short, Nat.sub_self] at count
    rw [List.length_eq_zero_iff.mp count, List.append_nil]
    exact ⟨rfl, rfl⟩
  · next long =>
    obtain ⟨overflow, wrote, write, made⟩ := Exec.bind_eq_ok.mp run
    obtain ⟨rfl, rfl⟩ := Exec.pure_eq_ok.mp made
    obtain ⟨ids, chain', taken, freed⟩ := writeOverflow_taken inUse write
    have same : chain = ids := stored.chain.unique chain'
    rw [same]
    exact ⟨taken, freed⟩

/-- Freeing a chain frees each of its pages once, from the first to the last, unless freeing one of
them fails. -/
theorem freeOverflowChain_freed {first : PageId} {tail : Bytes} {ids : List PageId}
    {store : Audited (Logged σ)} {fuel : Nat} (chain : OverflowChain (view store) first tail ids)
    (distinct : ids.Nodup) (enough : ids.length < fuel) :
    (∃ after, freeOverflowChain fuel first store = .ok () after ∧
      after.sink.freed = store.sink.freed ++ ids ∧ after.sink.taken = store.sink.taken) ∨
    ∃ id ∈ ids, ∃ (reached failed : σ) (fault : Fault StorageError) (after : Audited (Logged σ)),
      PageSink.freePage id reached = .error fault failed ∧
      freeOverflowChain fuel first store = .error fault after := by
  induction fuel generalizing first tail ids store with
  | zero => exact absurd enough (Nat.not_lt_zero _)
  | succ fuel ih =>
      cases chain with
      | nil =>
          refine Or.inl ⟨store, ?_, (List.append_nil _).symm, rfl⟩
          rw [freeOverflowChain, if_neg (by simp)]
          rfl
      | @cons _ next data chunk tail ids real held content most full rest =>
          obtain ⟨notIn, distinct⟩ := List.nodup_cons.mp distinct
          obtain ⟨⟨⟨sink, taken, freed⟩, allFit⟩, got, same⟩ := MapSource.getPage_held held
          obtain ⟨⟨-, sameTaken, sameFreed⟩, sameFit⟩ := Audited.onSink_eq_ok.mp got |>.imp_left
            Logged.onSink_eq_ok.mp
          have pointer : Node.readU32 data 0 = .ok next := content.left.readU32
          have begun : freeOverflowChain (fuel + 1) first store =
              (PageSink.freePage first >>= fun _ => freeOverflowChain fuel next)
                (⟨⟨sink, taken, freed⟩, allFit⟩ : Audited (Logged σ)) := by
            rw [freeOverflowChain, if_pos real, Exec.bind_of_ok got]
            dsimp only
            rw [pointer]
            rfl
          cases free : (PageSink.freePage first : Exec σ StorageError Unit) sink with
          | error fault failed =>
              refine Or.inr ⟨first, List.mem_cons_self, sink, failed, fault,
                ⟨⟨failed, taken, freed⟩, allFit⟩, free, begun.trans (Exec.bind_of_error ?_)⟩
              change Audited.onSink (PageSink.freePage first) _ = _
              have logged := @Logged.freePage_of_error σ _ ⟨sink, taken, freed⟩ first _ _ free
              simp only [Audited.onSink, Exec.onPart, logged]
          | ok done cleared =>
              have logged := @Logged.freePage_of_ok σ _ ⟨sink, taken, freed⟩ first _ free
              have ran : (PageSink.freePage first : Exec (Audited (Logged σ)) StorageError Unit)
                  ⟨⟨sink, taken, freed⟩, allFit⟩ =
                  .ok () ⟨⟨cleared, taken, freed ++ [first]⟩, allFit⟩ :=
                Audited.onSink_eq_ok.mpr ⟨logged, rfl⟩
              have emptied := MapSink.freePage_ok ran (by rw [same]; simp [held])
              have rest' : OverflowChain (view (⟨⟨cleared, taken, freed ++ [first]⟩, allFit⟩ :
                  Audited (Logged σ))) next tail ids := rest.congr fun id member => by
                rw [emptied, View.set_of_ne (ne_of_mem_of_not_mem member notIn), same]
              rw [begun, Exec.bind_of_ok ran]
              rcases ih rest' distinct (by simpa using enough) with
                ⟨after, run, freed', taken'⟩ | ⟨id, among, reached, failed, fault, after, refused, run⟩
              · refine Or.inl ⟨after, run, ?_, taken'.trans sameTaken⟩
                rw [freed', List.append_assoc, List.singleton_append]
                exact congrArg (· ++ first :: ids) sameFreed
              · exact Or.inr ⟨id, List.mem_cons_of_mem _ among, reached, failed, fault, after, refused, run⟩

/-- **Records of every length.** The cell made for a record is read back as the record. Its chain
starts at the cell's overflow page, has the pages that were allocated for it, as many as the part
of the record behind the inline one fills, and ends in 0. Freeing the chain frees each of these
pages once, unless freeing one of them fails. -/
theorem makeCell_read_free (store : Audited (Logged σ)) {made : Audited (Logged σ)} {used : PageId}
    (inUse : view store used ≠ .free) {rowid : Int64} {record : Record} {cell : LeafCell}
    (run : makeCell rowid record store = .ok cell made) :
    Reads (fun fuel => readValue fuel cell) made record.val ∧
    ∃ chain : List PageId,
      OverflowChain (view made) cell.overflow
        (record.val.drop (inlineLenFor record.val.length)) chain ∧
      (∀ id ∈ chain, view store id = .free) ∧ chain.Nodup ∧
      chain.length = pagesFor (record.val.length - inlineLenFor record.val.length) ∧
      made.sink.taken = store.sink.taken ++ chain ∧ made.sink.freed = store.sink.freed ∧
      ∀ fuel, chain.length < fuel →
        (∃ after, freeOverflowChain fuel cell.overflow made = .ok () after ∧
          Replaces (view made) (view after) chain [] ∧
          after.sink.freed = made.sink.freed ++ chain ∧ after.sink.taken = made.sink.taken) ∨
        ∃ id ∈ chain, ∃ (reached failed : σ) (fault : Fault StorageError) (after : Audited (Logged σ)),
          PageSink.freePage id reached = .error fault failed ∧
          freeOverflowChain fuel cell.overflow made = .error fault after := by
  obtain ⟨chain, stored, distinct, replaces, count, taken, freed⟩ := makeCell_taken inUse run
  refine ⟨readValue_stored stored, chain, stored.chain, ?_, distinct, count, taken, freed,
    fun fuel enough => ?_⟩
  · exact fun id among => replaces.fresh id among (List.not_mem_nil)
  · rcases freeOverflowChain_freed stored.chain distinct enough with ⟨after, ran, log⟩ | failed
    · exact Or.inl ⟨after, ran, freeOverflowChain_ok stored.chain distinct ran, log⟩
    · exact Or.inr failed

/-- A record on a leaf and two pages. -/
def nineThousand : Record := ⟨List.replicate 9000 7, by
  rw [List.length_replicate]
  decide⟩

theorem makeCell_nineThousand :
    Exec.leaves (makeCell 1 nineThousand) (⟨⟨MemStore.new, [], []⟩, true⟩ : Audited (Logged MemStore))
      (fun _ _ => true) = true := by
  decide +kernel

theorem makeCell_read_free_nineThousand : ∃ (made : Audited (Logged MemStore)) (cell : LeafCell),
    Reads (fun fuel => readValue fuel cell) made nineThousand.val ∧
      ∃ chain : List PageId, chain.length = 2 ∧ made.sink.taken = [] ++ chain := by
  obtain ⟨cell, made, run, -⟩ := Exec.exists_of_leaves makeCell_nineThousand
  obtain ⟨reads, chain, -, -, -, count, taken, -⟩ :=
    makeCell_read_free (⟨⟨MemStore.new, [], []⟩, true⟩ : Audited (Logged MemStore)) MemStore.new_inUse run
  refine ⟨made, cell, reads, chain, count.trans ?_, taken⟩
  rw [nineThousand, List.length_replicate]
  rfl

end BTree

end Squrust.Core
