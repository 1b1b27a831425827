import Squrust.Core.Storage.Visible

/-!
# What a fold of the log does

A fold writes pages to the main file in the order of their ids, so the effects
it has had when it stops are described by how many there were: so many pages,
then the header, the sync and the cut of the log (`foldLog_done`,
`foldLog_crashed`). Every page of the log is then in the main file, and every
other page is as it was (`pageAt_writeAll`).
-/

set_option autoImplicit false

namespace Squrust.Core

open Squrust.Foundation

namespace StorageEngine

/-! ## Pages written one after the other -/

/-- The main file after the pages were written. -/
def writeAll (pages : List (PageId × PageData)) (main : Bytes) : Bytes :=
  pages.foldl (fun main page => pwrite main (pageOffset page.1) page.2.val) main

/-- The cache after the pages were dropped from it. -/
def invalidateAll (pages : List (PageId × PageData)) (cache : PageCache) : PageCache :=
  pages.foldl (fun cache page => cache.invalidate page.1) cache

/-- A page that is not written stays. -/
theorem pageAt_writeAll_of_notMem {pages : List (PageId × PageData)} {main : Bytes} {id : PageId}
    {data : PageData} (real : ∀ page ∈ pages, page.1 ≠ 0) (absent : ∀ page ∈ pages, page.1 ≠ id)
    (here : pageAt main id = some data) : pageAt (writeAll pages main) id = some data := by
  induction pages generalizing main with
  | nil => exact here
  | cons page rest ih =>
      refine ih (fun other among => real other (List.mem_cons_of_mem _ among))
        (fun other among => absent other (List.mem_cons_of_mem _ among)) ?_
      exact pageAt_pwrite_of_ne (real page List.mem_cons_self)
        (absent page List.mem_cons_self).symm here

/-- A written page is there, when no page is written twice. -/
theorem pageAt_writeAll {pages : List (PageId × PageData)} {main : Bytes} {id : PageId}
    {data : PageData} (real : ∀ page ∈ pages, page.1 ≠ 0)
    (distinct : (pages.map Prod.fst).Nodup) (among : (id, data) ∈ pages) :
    pageAt (writeAll pages main) id = some data := by
  induction pages generalizing main with
  | nil => cases among
  | cons page rest ih =>
      rw [List.map_cons, List.nodup_cons] at distinct
      obtain ⟨absent, distinct⟩ := distinct
      have realRest : ∀ other ∈ rest, other.1 ≠ 0 := fun other member =>
        real other (List.mem_cons_of_mem _ member)
      rcases List.mem_cons.mp among with rfl | later
      · change pageAt (writeAll rest _) id = some data
        refine pageAt_writeAll_of_notMem realRest (fun other member same => ?_)
          (pageAt_pwrite_self (real _ List.mem_cons_self))
        exact absent (List.mem_map.mpr ⟨other, member, same⟩)
      · exact ih realRest distinct later

/-- The disk of an engine with another main file and budget. -/
def withMain (engine : StorageEngine) (main : Bytes) (left : Option Nat) (cache : PageCache) :
    StorageEngine :=
  { engine with disk := { engine.disk with main, left }, cache }

theorem onDisk_of_ok {α : Type} {code : Exec Disk StorageError α} {engine : StorageEngine} {value : α}
    {disk : Disk} (returned : code engine.disk = .ok value disk) :
    onDisk code engine = .ok value { engine with disk } := by
  simp only [onDisk, Exec.onPart, returned]

theorem onDisk_of_error {α : Type} {code : Exec Disk StorageError α} {engine : StorageEngine}
    {fault : Fault StorageError} {disk : Disk} (failed : code engine.disk = .error fault disk) :
    onDisk code engine = .error fault { engine with disk } := by
  simp only [onDisk, Exec.onPart, failed]

theorem writePage_ok {disk : Disk} {id : PageId} {data : PageData} (real : id ≠ 0)
    (enough : ∀ left ∈ disk.left, 1 ≤ left) :
    DatabaseFile.writePage id data disk =
      .ok () { disk with
        main := pwrite disk.main (pageOffset id) data.val, left := disk.left.map (· - 1) } := by
  have placed : DatabaseFile.offset id = .ok (pageOffset id) := by
    rw [DatabaseFile.offset, if_neg real]
  rw [DatabaseFile.writePage, placed, Exec.lift_ok_bind, Disk.writeMain, Disk.change_ok enough]

/-- One page of several. -/
theorem writePages_cons {id : PageId} {data : PageData} {rest : List (PageId × PageData)}
    {engine : StorageEngine} (real : id ≠ 0) (enough : ∀ left ∈ engine.disk.left, 1 ≤ left) :
    writePages ((id, data) :: rest) engine = writePages rest (engine.withMain
      (pwrite engine.disk.main (pageOffset id) data.val) (engine.disk.left.map (· - 1))
      (engine.cache.invalidate id)) := by
  rw [writePages]
  refine (Exec.bind_of_ok (onDisk_of_ok (writePage_ok real enough))).trans ?_
  exact Exec.bind_of_ok rfl

theorem writePages_done {pages : List (PageId × PageData)} {engine : StorageEngine}
    (real : ∀ page ∈ pages, page.1 ≠ 0) (enough : ∀ left ∈ engine.disk.left, pages.length ≤ left) :
    writePages pages engine = .ok () (engine.withMain (writeAll pages engine.disk.main)
      (engine.disk.left.map (· - pages.length)) (invalidateAll pages engine.cache)) := by
  induction pages generalizing engine with
  | nil =>
      have same : engine.disk.left.map (· - 0) = engine.disk.left := by
        cases engine.disk.left <;> rfl
      rw [List.length_nil, same]
      rfl
  | cons page rest ih =>
      obtain ⟨id, data⟩ := page
      have first : ∀ left ∈ engine.disk.left, 1 ≤ left := fun left among => by
        have := enough left among
        rw [List.length_cons] at this
        omega
      have realRest : ∀ other ∈ rest, other.1 ≠ 0 := fun other member =>
        real other (List.mem_cons_of_mem _ member)
      have spent : (engine.disk.left.map (· - 1)).map (· - rest.length) =
          engine.disk.left.map (· - (rest.length + 1)) := by
        rw [Option.map_map]
        congr 1
        funext left
        simp only [Function.comp_apply]
        omega
      rw [writePages_cons (real _ List.mem_cons_self) first, ih realRest, List.length_cons, ← spent]
      · rfl
      · intro left among
        obtain ⟨before, was, rfl⟩ := Option.mem_map.mp among
        have := enough before was
        rw [List.length_cons] at this
        omega

theorem writePages_failed {pages : List (PageId × PageData)} {engine : StorageEngine} {budget : Nat}
    (real : ∀ page ∈ pages, page.1 ≠ 0) (few : budget < pages.length)
    (bounded : engine.disk.left = some budget) :
    ∃ cache, writePages pages engine = .error (.error (.io "write failed"))
      (engine.withMain (writeAll (pages.take budget) engine.disk.main) (some 0) cache) := by
  induction pages generalizing engine budget with
  | nil => simp at few
  | cons page rest ih =>
      obtain ⟨id, data⟩ := page
      have realHere : id ≠ 0 := real _ List.mem_cons_self
      cases budget with
      | zero =>
          refine ⟨engine.cache, ?_⟩
          have placed : DatabaseFile.offset id = .ok (pageOffset id) := by
            rw [DatabaseFile.offset, if_neg realHere]
          have failed : DatabaseFile.writePage id data engine.disk =
              .error (.error (.io "write failed")) engine.disk := by
            rw [DatabaseFile.writePage, placed, Exec.lift_ok_bind, Disk.writeMain,
              Disk.change_of_zero bounded]
          rw [writePages]
          refine (Exec.bind_of_error (onDisk_of_error failed)).trans ?_
          simp only [withMain, List.take_zero, writeAll, List.foldl_nil, ← bounded]
      | succ budget =>
          rw [List.length_cons] at few
          have first : ∀ left ∈ engine.disk.left, 1 ≤ left := by
            rw [bounded]
            simp
          have realRest : ∀ other ∈ rest, other.1 ≠ 0 := fun other member =>
            real other (List.mem_cons_of_mem _ member)
          have later := @ih (engine.withMain (pwrite engine.disk.main (pageOffset id) data.val)
            (engine.disk.left.map (· - 1)) (engine.cache.invalidate id)) budget realRest (by omega)
            (by rw [bounded]; rfl)
          obtain ⟨cache, failed⟩ := later
          exact ⟨cache, (writePages_cons realHere first).trans failed⟩

/-! ## The whole fold -/

/-- The header a fold writes over a main file that has all pages. -/
def foldHeader (inner : WalInner) (main : Bytes) : DbHeader where
  pageSize := 4096
  dbSizePages := max (UInt32.ofNat (main.length / pageSize)) inner.dbSize
  changeCounter := max inner.maxVersion.toUInt32 1
  schemaCookie := 1
  freelistTrunk := 0
  freelistCount := 0
  userVersion := ((pageAt main 1).map userVersionOf).getD 0

/-- The main file with that header. -/
def putHeader (inner : WalInner) (main : Bytes) : Bytes :=
  pwrite main (pageOffset 1)
    ((foldHeader inner main).writeInto ((pageAt main 1).getD PageData.zero)).val

/-- The engine after a fold. -/
def folded (engine : StorageEngine) : StorageEngine :=
  let pages := lastVersions engine.wal.index
  { engine with
    disk := ⟨putHeader engine.wal (writeAll pages engine.disk.main), [], none⟩
    wal := { engine.wal with writeOffset := 0, index := FiniteMap.empty }
    cache := invalidateAll pages engine.cache }

theorem pageCount_eq (disk : Disk) :
    DatabaseFile.pageCount disk = .ok (UInt32.ofNat (disk.main.length / pageSize)) disk := rfl

theorem readPage_eq (id : PageId) (disk : Disk) :
    DatabaseFile.readPage id disk = .ok (pageAt disk.main id) disk := rfl

theorem writeHeader_ok {header : DbHeader} {disk : Disk} (enough : ∀ left ∈ disk.left, 1 ≤ left) :
    DatabaseFile.writeHeader header disk = .ok () { disk with
      main := pwrite disk.main (pageOffset 1)
        (header.writeInto ((pageAt disk.main 1).getD PageData.zero)).val
      left := disk.left.map (· - 1) } := by
  rw [DatabaseFile.writeHeader]
  refine (Exec.bind_of_ok (readPage_eq 1 disk)).trans ?_
  exact writePage_ok (by decide) enough

theorem writeHeader_failed {header : DbHeader} {disk : Disk} (spent : disk.left = some 0) :
    DatabaseFile.writeHeader header disk = .error (.error (.io "write failed")) disk := by
  have placed : DatabaseFile.offset 1 = .ok (pageOffset 1) := rfl
  rw [DatabaseFile.writeHeader]
  refine (Exec.bind_of_ok (readPage_eq 1 disk)).trans ?_
  rw [DatabaseFile.writePage, placed, Exec.lift_ok_bind, Disk.writeMain, Disk.change_of_zero spent]

/-- The header is written, the log is emptied. -/
theorem resetLog_done {inner : WalInner} {engine : StorageEngine}
    (enough : ∀ budget ∈ engine.disk.left, 3 ≤ budget) :
    resetLog inner engine = .ok () { engine with
      disk := ⟨putHeader inner engine.disk.main, [], engine.disk.left.map (· - 3)⟩
      wal := { engine.wal with writeOffset := 0, index := FiniteMap.empty } } := by
  obtain ⟨⟨main, log, left⟩, wal, cache, mvcc, gate, pageCount, freelist⟩ := engine
  simp only at enough
  have one : ∀ budget ∈ left, 1 ≤ budget := fun budget among => by
    have := enough budget among
    omega
  have two : ∀ budget ∈ left.map (· - 1), 1 ≤ budget := by
    intro budget among
    obtain ⟨before, was, rfl⟩ := Option.mem_map.mp among
    have := enough before was
    omega
  have three : ∀ budget ∈ (left.map (· - 1)).map (· - 1), 1 ≤ budget := by
    intro budget among
    rw [Option.map_map] at among
    obtain ⟨before, was, rfl⟩ := Option.mem_map.mp among
    have := enough before was
    simp only [Function.comp_apply]
    omega
  have spent : ((left.map (· - 1)).map (· - 1)).map (· - 1) = left.map (· - 3) := by
    rw [Option.map_map, Option.map_map]
    congr 1
  have empty : setLen log 0 = [] := by
    rw [setLen_of_le (Nat.zero_le _), List.take_zero]
  rw [resetLog, ← spent]
  refine (Exec.bind_of_ok (onDisk_of_ok (pageCount_eq _))).trans ?_
  refine (Exec.bind_of_ok (onDisk_of_ok (readPage_eq 1 _))).trans ?_
  refine (Exec.bind_of_ok (onDisk_of_ok (writeHeader_ok one))).trans ?_
  refine (Exec.bind_of_ok (onDisk_of_ok (Disk.change_ok two))).trans ?_
  refine (Exec.bind_of_ok (onDisk_of_ok (Disk.change_ok three))).trans ?_
  simp only [id_eq, empty]
  rfl

/-- Stopped before the log is emptied: the header may be written. -/
theorem resetLog_crashed {inner : WalInner} {engine : StorageEngine} {budget : Nat} (few : budget < 3)
    (bounded : engine.disk.left = some budget) :
    ∃ main, Exec.reached (resetLog inner) engine =
        { engine with disk := { engine.disk with main, left := some 0 } } ∧
      main = if budget = 0 then engine.disk.main else putHeader inner engine.disk.main := by
  obtain ⟨⟨main, log, left⟩, wal, cache, mvcc, gate, pageCount, freelist⟩ := engine
  simp only at bounded
  subst bounded
  have begun : resetLog inner ⟨⟨main, log, some budget⟩, wal, cache, mvcc, gate, pageCount, freelist⟩ =
      (do
        onDisk (DatabaseFile.writeHeader (foldHeader inner main))
        onDisk DatabaseFile.sync
        onDisk (Disk.setLenLog 0)
        modify fun engine => { engine with
          wal := { engine.wal with writeOffset := 0, index := FiniteMap.empty } } :
        Exec StorageEngine StorageError Unit)
      ⟨⟨main, log, some budget⟩, wal, cache, mvcc, gate, pageCount, freelist⟩ := by
    rw [resetLog]
    refine (Exec.bind_of_ok (onDisk_of_ok (pageCount_eq _))).trans ?_
    exact Exec.bind_of_ok (onDisk_of_ok (readPage_eq 1 _))
  have which : budget = 0 ∨ budget = 1 ∨ budget = 2 := by omega
  rcases which with rfl | rfl | rfl
  · have failed := @writeHeader_failed (foldHeader inner main) ⟨main, log, some 0⟩ rfl
    refine ⟨main, ?_, rfl⟩
    rw [Exec.reached_of_error (begun.trans (Exec.bind_of_error (onDisk_of_error failed)))]
  · have header := @writeHeader_ok (foldHeader inner main) ⟨main, log, some 1⟩ (by simp)
    have failed := @Disk.syncAll_failed ⟨putHeader inner main, log, some 0⟩ rfl
    refine ⟨putHeader inner main, ?_, rfl⟩
    rw [Exec.reached_of_error (begun.trans ((Exec.bind_of_ok (onDisk_of_ok header)).trans
      (Exec.bind_of_error (onDisk_of_error failed))))]
  · have header := @writeHeader_ok (foldHeader inner main) ⟨main, log, some 2⟩ (by simp)
    have synced := @Disk.change_ok id ⟨putHeader inner main, log, some 1⟩ (by simp)
    have failed := @Disk.setLenLog_failed ⟨putHeader inner main, log, some 0⟩ 0 rfl
    refine ⟨putHeader inner main, ?_, rfl⟩
    rw [Exec.reached_of_error (begun.trans ((Exec.bind_of_ok (onDisk_of_ok header)).trans
      ((Exec.bind_of_ok (onDisk_of_ok synced)).trans
        (Exec.bind_of_error (onDisk_of_error failed)))))]

/-- A fold without failures. -/
theorem foldLog_done {engine : StorageEngine} (some : engine.wal.index.isEmpty = false)
    (real : ∀ page ∈ lastVersions engine.wal.index, page.1 ≠ 0) (unbounded : engine.disk.left = none) :
    foldLog engine = .ok () engine.folded := by
  rw [foldLog]
  refine (Exec.bind_of_ok rfl).trans ?_
  simp only [some, Bool.false_eq_true, if_false]
  have free : ∀ left ∈ engine.disk.left, (lastVersions engine.wal.index).length ≤ left := by
    rw [unbounded]
    simp
  refine (Exec.bind_of_ok (writePages_done real free)).trans ?_
  rw [resetLog_done (by rw [withMain, unbounded]; simp)]
  simp only [withMain, folded, unbounded, Option.map_none]

/-- The files after a fold that stopped behind some number of its effects. -/
theorem foldLog_crashed {engine : StorageEngine} {effects : Nat}
    (some : engine.wal.index.isEmpty = false)
    (real : ∀ page ∈ lastVersions engine.wal.index, page.1 ≠ 0)
    (bounded : engine.disk.left = Option.some effects) :
    let pages := lastVersions engine.wal.index
    let after := (Exec.reached foldLog engine).disk
    after.main = (if effects ≤ pages.length then writeAll (pages.take effects) engine.disk.main
        else putHeader engine.wal (writeAll pages engine.disk.main)) ∧
      after.log = if effects < pages.length + 3 then engine.disk.log else [] := by
  intro pages after
  have begun : foldLog engine = (writePages pages >>= fun _ => resetLog engine.wal) engine := by
    rw [foldLog]
    refine (Exec.bind_of_ok rfl).trans ?_
    simp only [some, Bool.false_eq_true, if_false]
    rfl
  rcases Nat.lt_or_ge effects pages.length with inPages | past
  · obtain ⟨cache, failed⟩ := writePages_failed real inPages bounded
    have stopped : after = _ := congrArg StorageEngine.disk
      (Exec.reached_of_error (begun.trans (Exec.bind_of_error failed)))
    rw [stopped, if_pos inPages.le, if_pos (by omega)]
    exact ⟨rfl, rfl⟩
  · obtain ⟨between, written, disk⟩ : ∃ between, writePages pages engine = .ok () between ∧
        between.disk = ⟨writeAll pages engine.disk.main, engine.disk.log,
          Option.some (effects - pages.length)⟩ := by
      refine ⟨_, writePages_done real (by rw [bounded]; simpa using past), ?_⟩
      rw [withMain, bounded]
      rfl
    have reset := begun.trans (Exec.bind_of_ok written)
    have same : after = (Exec.reached (resetLog engine.wal) between).disk := by
      simp only [after, Exec.reached, reset]
    rcases Nat.lt_or_ge (effects - pages.length) 3 with inReset | whole
    · obtain ⟨main, stopped, which⟩ := @resetLog_crashed engine.wal between _ inReset (by rw [disk])
      rw [same, stopped, which, disk, if_pos (show effects < pages.length + 3 by omega)]
      refine ⟨?_, rfl⟩
      by_cases none : effects - pages.length = 0
      · have all : effects = pages.length := by omega
        rw [if_pos none, all, if_pos le_rfl, List.take_length]
      · rw [if_neg none, if_neg (by omega)]
    · have done := @resetLog_done engine.wal between (by rw [disk]; simpa using whole)
      rw [same, Exec.reached_of_ok done, disk, if_neg (by omega), if_neg (by omega)]
      exact ⟨rfl, rfl⟩

end StorageEngine

end Squrust.Core
