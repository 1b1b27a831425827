import Squrust.Core.Storage.SharedFiles

/-!
# The size in the header of the main file

A fold writes the pages of the log to the main file and then a header with the
larger of two sizes: the pages the file has, and the size that was logged with
the last commit, which is how many pages its transaction had counted. The
highest page a transaction counts need not be among the pages it logs: a page
that is allocated and freed again in one transaction is counted and never
written. After a checkpoint the header names the pages that are there exactly
when the size logged last is one the file or the log reaches (`sizesAgree_iff`).
-/

set_option autoImplicit false

namespace Squrust.Core

open Squrust.Foundation

/-- Number of full pages in a file. -/
def physicalPages (file : Bytes) : Nat := file.length / pageSize

/-- The `db_size_pages` in the header of a file. -/
def headerPages (file : Bytes) : Nat := field file 28 4

/-- The header names the number of pages that are there. -/
def SizesAgree (file : Bytes) : Prop := headerPages file = physicalPages file

instance (file : Bytes) : Decidable (SizesAgree file) :=
  inferInstanceAs (Decidable (headerPages file = physicalPages file))

/-- The highest page number among pages, 0 without pages. -/
def highestPage : List (PageId × PageData) → Nat
  | [] => 0
  | page :: rest => max page.1.toNat (highestPage rest)

namespace StorageEngine

/-- The size logged last is one the main file or the log reaches, unless a checkpoint would write
nothing. -/
def CountsPages (engine : StorageEngine) : Prop :=
  engine.Skips ∨ engine.wal.index.isEmpty = true ∨
    engine.wal.dbSize.toNat ≤
      max (physicalPages engine.disk.main) (highestPage (lastVersions engine.wal.index))

end StorageEngine

namespace Session

/-- The property holds of the engine before each checkpoint of a run. -/
def BeforeCheckpoints (Holds : StorageEngine → Prop) : Session → List EngineCall → Prop
  | _, [] => True
  | session, .checkpoint :: calls =>
      Holds session.engine ∧ BeforeCheckpoints Holds (session.step .checkpoint).1 calls
  | session, call :: calls => BeforeCheckpoints Holds (session.step call).1 calls

/-- The property holds of the engine after each checkpoint of a run that returns. -/
def AfterCheckpoints (Holds : StorageEngine → Prop) : Session → List EngineCall → Prop
  | _, [] => True
  | session, .checkpoint :: calls =>
      ((session.step .checkpoint).2 = .done → Holds (session.step .checkpoint).1.engine) ∧
        AfterCheckpoints Holds (session.step .checkpoint).1 calls
  | session, call :: calls => AfterCheckpoints Holds (session.step call).1 calls

end Session

/-! ## Sizes of a written file -/

theorem highestPage_lt (pages : List (PageId × PageData)) : highestPage pages < 2 ^ 32 := by
  induction pages with
  | nil => exact Nat.two_pow_pos 32
  | cons page rest ih => exact max_lt page.1.toNat_lt ih

theorem physicalPages_pwrite {main : Bytes} {id : PageId} (real : id ≠ 0) (data : PageData) :
    physicalPages (pwrite main (pageOffset id) data.val) = max (physicalPages main) id.toNat := by
  have positive : 0 < id.toNat := UInt32.pos_iff_ne_zero.mpr real
  simp only [physicalPages, length_pwrite, data.property, pageOffset, pageSize]
  omega

/-- After pages were written the file reaches the highest of them. -/
theorem physicalPages_writeAll {pages : List (PageId × PageData)} {main : Bytes}
    (real : ∀ page ∈ pages, page.1 ≠ 0) :
    physicalPages (StorageEngine.writeAll pages main) =
      max (physicalPages main) (highestPage pages) := by
  induction pages generalizing main with
  | nil => exact (Nat.max_zero _).symm
  | cons page rest ih =>
      have later := @ih (pwrite main (pageOffset page.1) page.2.val) fun other among =>
        real other (List.mem_cons_of_mem _ among)
      rw [physicalPages_pwrite (real page List.mem_cons_self)] at later
      exact later.trans (max_assoc _ _ _)

theorem toNat_max (first second : UInt32) : (max first second).toNat = max first.toNat second.toNat := by
  rw [max_def, max_def]
  simp only [UInt32.le_iff_toNat_le]
  split
  · rfl
  · rfl

namespace StorageEngine

variable {engine : StorageEngine} {inner : WalInner} {main : Bytes}

theorem headerPages_putHeader (inner : WalInner) (main : Bytes) :
    headerPages (putHeader inner main) = (foldHeader inner main).dbSizePages.toNat := by
  have placed : putHeader inner main =
      (foldHeader inner main).bytes ++
        ((((pageAt main 1).getD PageData.zero).val.drop headerSize) ++ main.drop pageSize) := by
    have front := @pwrite_append [] main
      ((foldHeader inner main).writeInto ((pageAt main 1).getD PageData.zero)).val (pageOffset 1) rfl
    have size := ((foldHeader inner main).writeInto ((pageAt main 1).getD PageData.zero)).property
    rw [List.nil_append, List.nil_append, size] at front
    rw [putHeader, front, DbHeader.writeInto, List.append_assoc]
  rw [headerPages, placed]
  exact DbHeader.dbSizePages_bytes _ _

theorem physicalPages_putHeader (filled : 1 ≤ physicalPages main) :
    physicalPages (putHeader inner main) = physicalPages main := by
  rw [putHeader, physicalPages_pwrite (by decide)]
  exact Nat.max_eq_left filled

/-- What a fold writes into the header, of a file that does not have too many pages. -/
theorem headerPages_folded {pages : List (PageId × PageData)} (real : ∀ page ∈ pages, page.1 ≠ 0)
    (few : physicalPages main < 2 ^ 32) :
    headerPages (putHeader inner (writeAll pages main)) =
      max (max (physicalPages main) (highestPage pages)) inner.dbSize.toNat := by
  have within := max_lt few (highestPage_lt pages)
  rw [← physicalPages_writeAll real] at within ⊢
  rw [headerPages_putHeader, foldHeader, toNat_max, UInt32.toNat_ofNat', physicalPages]
  rw [physicalPages] at within
  rw [Nat.mod_eq_of_lt within]

/-- A fold of a file that has its first page. -/
theorem sizesAgree_folded (real : ∀ page ∈ lastVersions engine.wal.index, page.1 ≠ 0)
    (filled : 1 ≤ physicalPages engine.disk.main) (few : physicalPages engine.disk.main < 2 ^ 32) :
    SizesAgree engine.folded.disk.main ↔ engine.wal.dbSize.toNat ≤
      max (physicalPages engine.disk.main) (highestPage (lastVersions engine.wal.index)) := by
  have reached := @physicalPages_writeAll _ engine.disk.main real
  have still : 1 ≤ physicalPages (writeAll (lastVersions engine.wal.index) engine.disk.main) := by
    rw [reached]
    exact filled.trans (le_max_left _ _)
  rw [SizesAgree, folded, headerPages_folded real few, physicalPages_putHeader still, reached]
  exact max_eq_left_iff

/-- A file that has page 1 has a page. -/
theorem physicalPages_pos {first : PageData} (here : pageAt main 1 = some first) :
    1 ≤ physicalPages main := by
  obtain ⟨-, found⟩ := pageAt_eq_some.mp here
  unfold pread at found
  split at found
  · next within =>
    have size : pageSize ≤ main.length := (Nat.le_add_left _ _).trans within
    exact (Nat.one_le_div_iff (by decide)).mpr size
  · cases found

/-- A checkpoint does nothing, stops at a page 0, or folds the log. -/
theorem checkpoint_cases (unbounded : engine.disk.left = none) :
    checkpoint engine = .ok () engine ∧ engine.CountsPages ∨
      (∃ fault, checkpoint engine = .error fault engine) ∧ engine.Skips ∨
      checkpoint engine = .ok () engine.folded ∧ engine.wal.index.isEmpty = false ∧
        ¬ engine.Skips := by
  have begun := checkpoint_eq engine
  by_cases lagging : engine.mvcc.oldestRequiredVersion < engine.mvcc.currentVersion
  · rw [if_pos lagging] at begun
    exact Or.inl ⟨begun, Or.inl (Or.inl lagging)⟩
  rw [if_neg lagging] at begun
  cases empty : engine.wal.index.isEmpty with
  | true => exact Or.inl ⟨begun.trans (foldLog_of_isEmpty empty), Or.inr (Or.inl empty)⟩
  | false =>
      by_cases zero : ∃ page ∈ lastVersions engine.wal.index, page.1 = 0
      · obtain ⟨page, among, isZero⟩ := zero
        exact Or.inr (Or.inl ⟨⟨_, begun.trans (foldLog_zero empty among isZero)⟩,
          Or.inr ⟨page, among, isZero⟩⟩)
      · have real : ∀ page ∈ lastVersions engine.wal.index, page.1 ≠ 0 := fun page among isZero =>
          zero ⟨page, among, isZero⟩
        exact Or.inr (Or.inr ⟨begun.trans (foldLog_done empty real unbounded), rfl,
          not_or.mpr ⟨lagging, zero⟩⟩)

/-- Sizes that agree still agree after a checkpoint when it returns, exactly when the size logged
last counts pages that are there. -/
theorem checkpoint_sizes {versions : List TransactionId} (sound : engine.Sound versions)
    (agree : SizesAgree engine.disk.main) :
    (∀ after, checkpoint engine = .ok () after → SizesAgree after.disk.main) ↔
      engine.CountsPages := by
  rcases checkpoint_cases sound.unbounded with
    ⟨idle, counts⟩ | ⟨⟨fault, stops⟩, skips⟩ | ⟨folds, some, runs⟩
  · rw [idle]
    refine iff_of_true (fun after same => ?_) counts
    obtain ⟨-, rfl⟩ := EStateM.Result.ok.inj same
    exact agree
  · rw [stops]
    exact iff_of_true (fun after never => by cases never) (Or.inl skips)
  · have real : ∀ page ∈ lastVersions engine.wal.index, page.1 ≠ 0 := fun page among isZero =>
      runs (Or.inr ⟨page, among, isZero⟩)
    obtain ⟨first, here, -⟩ := sound.header
    have few : physicalPages engine.disk.main < 2 ^ 32 := by
      rw [← agree]
      exact field_lt _ _ _
    have exactly := sizesAgree_folded real (physicalPages_pos here) few
    rw [folds]
    constructor
    · intro agrees
      exact Or.inr (Or.inr (exactly.mp (agrees _ rfl)))
    · intro counts after same
      obtain ⟨-, rfl⟩ := EStateM.Result.ok.inj same
      rcases counts with skips | none | covered
      · exact absurd skips runs
      · rw [some] at none
        cases none
      · exact exactly.mpr covered

/-- And when it stops the main file is as it was. -/
theorem main_of_stopped {fault : Fault StorageError} {after : StorageEngine}
    (unbounded : engine.disk.left = none) (stopped : checkpoint engine = .error fault after) :
    after = engine := by
  rcases checkpoint_cases unbounded with ⟨idle, -⟩ | ⟨⟨_, stops⟩, -⟩ | ⟨folds, -, -⟩
  · rw [idle] at stopped
    cases stopped
  · rw [stops] at stopped
    exact (EStateM.Result.error.inj stopped).2.symm
  · rw [folds] at stopped
    cases stopped

end StorageEngine

/-! ## Runs -/

namespace Simulates

variable {session : Session} {store : Store}

/-- Only a checkpoint writes to the main file. -/
theorem main_step (simulates : Simulates session store) {call : EngineCall}
    (other : call ≠ .checkpoint) :
    (session.step call).1.engine.disk.main = session.engine.disk.main := by
  cases call with
  | checkpoint => exact absurd rfl other
  | commit order =>
      change (session.onWriter (WriteTx.commit order) fun _ => .done).1.engine.disk.main = _
      cases openTx : session.writer with
      | none => rw [Session.onWriter_of_none openTx]
      | some tx =>
          obtain ⟨draft, -, drafts⟩ := simulates.exists_draft openTx
          rcases simulates.sound.commit order drafts.unfinished drafts.sized with
            ⟨after, ran, -, advanced⟩ | ran
          · rw [Session.onWriter_of_ok openTx ran]
            exact advanced.main
          · rw [Session.onWriter_of_error openTx ran]
            rfl
  | _ => exact congrArg Disk.main (Session.disk_step_of_not_writes rfl)

/-- **Step.** Sizes that agree agree after a checkpoint that returns, exactly when the size logged
last counts pages that are there. -/
theorem sizes_step (simulates : Simulates session store)
    (agree : SizesAgree session.engine.disk.main) :
    ((session.step .checkpoint).2 = .done →
        SizesAgree (session.step .checkpoint).1.engine.disk.main) ↔
      session.engine.CountsPages := by
  rw [← StorageEngine.checkpoint_sizes simulates.sound agree]
  cases ran : StorageEngine.checkpoint session.engine with
  | ok value engine => simp [Session.step, ran]
  | error fault engine => simp [Session.step, ran]

/-- **Run.** The sizes agree after all checkpoints that return, exactly when before each the size
logged last counts pages that are there. -/
theorem sizes_run (simulates : Simulates session store)
    (agree : SizesAgree session.engine.disk.main) (calls : List EngineCall) :
    session.AfterCheckpoints (fun engine => SizesAgree engine.disk.main) calls ↔
      session.BeforeCheckpoints StorageEngine.CountsPages calls := by
  induction calls generalizing session store with
  | nil => exact Iff.rfl
  | cons call rest ih =>
      obtain ⟨-, after⟩ := simulates.steps call
      by_cases checkpoints : call = .checkpoint
      · subst checkpoints
        have here := simulates.sizes_step agree
        have next : session.engine.CountsPages →
            SizesAgree (session.step .checkpoint).1.engine.disk.main := by
          intro counts
          cases ran : StorageEngine.checkpoint session.engine with
          | ok value engine =>
              have returned : (session.step .checkpoint).2 = .done := by
                simp only [Session.step, ran]
              exact here.mpr counts returned
          | error fault engine =>
              have same := StorageEngine.main_of_stopped simulates.sound.unbounded ran
              subst same
              simp only [Session.step, ran]
              exact agree
        constructor
        · rintro ⟨first, later⟩
          have counts := here.mp first
          exact ⟨counts, (ih after (next counts)).mp later⟩
        · rintro ⟨counts, later⟩
          exact ⟨here.mpr counts, (ih after (next counts)).mpr later⟩
      · have still := simulates.main_step checkpoints
        have later := ih after (by rw [still]; exact agree)
        cases call with
        | checkpoint => exact absurd rfl checkpoints
        | _ => exact later

end Simulates

/-- **Sizes.** On an opened database whose sizes agree, or on a new one, they agree after every
checkpoint of a run exactly when before each checkpoint the size logged last is one the main file
or the log reaches, unless the checkpoint writes nothing. -/
theorem sizesAgree_iff {disk after : Disk} {engine : StorageEngine} (unbounded : disk.left = none)
    (opened : StorageEngine.openInner disk = .ok engine after)
    (agree : disk.main = [] ∨ SizesAgree disk.main) (calls : List EngineCall) :
    (Session.start engine).AfterCheckpoints (fun engine => SizesAgree engine.disk.main) calls ↔
      (Session.start engine).BeforeCheckpoints StorageEngine.CountsPages calls := by
  obtain ⟨sound, main⟩ := StorageEngine.openInner_facts unbounded opened
  have simulates := sound.simulates (StorageEngine.gate_of_openInner opened)
  refine simulates.sizes_run ?_ calls
  have begun : SizesAgree engine.disk.main := by
    rw [main, StorageEngine.openedMain]
    split
    · decide +kernel
    · next filled => exact agree.resolve_left filled
  exact begun

/-- A transaction that allocates two pages and frees the second before it was written. -/
def freesLastPage : List EngineCall :=
  [.beginWrite, .allocPage, .allocPage, .writePage ⟨2, PageData.zero⟩, .freePage 3, .commit [2],
    .checkpoint]

/-- The first page of a new database has its sizes. -/
theorem sizesAgree_iff_new :
    ∃ engine after, StorageEngine.openInner ⟨[], [], none⟩ = .ok engine after ∧
      ((Session.start engine).AfterCheckpoints (fun engine => SizesAgree engine.disk.main)
          freesLastPage ↔
        (Session.start engine).BeforeCheckpoints StorageEngine.CountsPages freesLastPage) := by
  obtain ⟨engine, opened, -⟩ := openInner_new
  exact ⟨engine, engine.disk, opened, sizesAgree_iff rfl opened (Or.inl rfl) freesLastPage⟩

/-- The reply of a call that returned. -/
def EngineReply.isDone : EngineReply → Bool
  | .done => true
  | _ => false

theorem EngineReply.eq_done {reply : EngineReply} (returned : reply.isDone = true) : reply = .done := by
  cases reply with
  | done => rfl
  | _ => exact Bool.noConfusion returned

/-- The checkpoint of the run returns, and its header names three pages of a file that has two. -/
def folds_freesLastPage (engine : StorageEngine) : Bool :=
  let before := ((Session.start engine).run (freesLastPage.take 6)).1
  let after := (before.step .checkpoint).1.engine.disk.main
  (before.step .checkpoint).2.isDone && headerPages after == 3 && physicalPages after == 2

/-- After its checkpoint the header names three pages of a file that has two. -/
theorem header_beyond_file :
    ∃ engine after, StorageEngine.openInner ⟨[], [], none⟩ = .ok engine after ∧
      ¬ (Session.start engine).AfterCheckpoints (fun engine => SizesAgree engine.disk.main)
        freesLastPage ∧
      headerPages ((Session.start engine).run freesLastPage).1.engine.disk.main = 3 ∧
      physicalPages ((Session.start engine).run freesLastPage).1.engine.disk.main = 2 := by
  have sizes : Exec.leaves StorageEngine.openInner ⟨[], [], none⟩
      (fun engine _ => folds_freesLastPage engine) = true := by decide +kernel
  obtain ⟨engine, opened, -⟩ := openInner_new
  simp only [Exec.leaves, opened, folds_freesLastPage, Bool.and_eq_true, beq_iff_eq] at sizes
  obtain ⟨⟨returned, named⟩, there⟩ := sizes
  refine ⟨engine, engine.disk, opened, ?_, named, there⟩
  rintro ⟨agree, -⟩
  have folded : SizesAgree
      ((((Session.start engine).run (freesLastPage.take 6)).1.step .checkpoint).1.engine.disk.main) :=
    agree (EngineReply.eq_done returned)
  rw [SizesAgree, named, there] at folded
  cases folded

end Squrust.Core
