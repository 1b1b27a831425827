import Squrust.Core.BTree.Tree
import Squrust.Core.Mvcc
import Squrust.Core.Storage.Cache
import Squrust.Core.Storage.File
import Squrust.Core.Wal.Log

/-!
# The storage engine

The engine ties the main file, the log, the cache and the versions together. A
page is looked up in the index of the log, then in the cache, then in the main
file (`readPageAt`). A write transaction keeps its pages to itself until it
commits; the commit appends them to the log and publishes the next version. A
checkpoint writes the last version of every page in the log to the main file and
empties the log.
-/

set_option autoImplicit false

namespace Squrust.Core

open Squrust.Foundation

structure StorageEngine where
  disk : Disk
  wal : WalInner
  cache : PageCache
  mvcc : MvccManager
  /-- A write transaction is active. -/
  gate : Bool
  /-- Number of allocated pages. -/
  pageCount : UInt32
  /-- Pages to be reused, the one pushed last in front. -/
  freelist : List PageId

namespace StorageEngine

variable {α : Type}

/-- Run code on the files. -/
def onDisk (code : Exec Disk StorageError α) : Exec StorageEngine StorageError α :=
  Exec.onPart StorageEngine.disk (fun disk engine => { engine with disk := disk }) code

/-- The log of an engine. -/
def log (engine : StorageEngine) : WriteAheadLog := ⟨engine.disk, engine.wal⟩

/-- Run code on the log. -/
def onLog (code : Exec WriteAheadLog StorageError α) : Exec StorageEngine StorageError α :=
  Exec.onPart log (fun log engine => { engine with disk := log.disk, wal := log.inner }) code

/-- `open_inner`: the engine takes over the files. -/
def openInner : Exec Disk StorageError StorageEngine := do
  let header ← DatabaseFile.openFile
  let wal ← WriteAheadLog.openLog header.dbSizePages
  let physical ← DatabaseFile.pageCount
  let disk ← get
  return {
    disk
    wal
    cache := PageCache.withDefaultCapacity
    mvcc := MvccManager.new wal.maxVersion
    gate := false
    pageCount := max (max (max header.dbSizePages wal.dbSize) physical) 1
    freelist := [] }

/-- A page as visible at a snapshot. -/
def readPageAt (id : PageId) (version : TransactionId) : Exec StorageEngine StorageError RawPage :=
  fun engine =>
    match engine.wal.index.readPage id version with
    | some data => .ok ⟨id, data⟩ engine
    | none =>
        match engine.cache.get id with
        | (some page, cache) => .ok page { engine with cache }
        | (none, _) =>
            match pageAt engine.disk.main id with
            | some data => .ok ⟨id, data⟩ { engine with cache := engine.cache.insert ⟨id, data⟩ }
            | none => .error (.error (.pageOutOfRange id)) engine

/-! ## Read transactions -/

/-- Pin the committed version; the transaction is its snapshot. -/
def beginRead : Exec StorageEngine StorageError TransactionId := fun engine =>
  let (snapshot, mvcc) := engine.mvcc.beginRead
  .ok snapshot { engine with mvcc }

/-- `drop(ReadTx)`. -/
def dropRead (snapshot : TransactionId) (engine : StorageEngine) : StorageEngine :=
  { engine with mvcc := engine.mvcc.endRead snapshot }

/-! ## Checkpoints -/

/-- Write pages to the main file and drop them from the cache. -/
def writePages : List (PageId × PageData) → Exec StorageEngine StorageError Unit
  | [] => return ()
  | (id, data) :: rest => do
      onDisk (DatabaseFile.writePage id data)
      modify fun engine => { engine with cache := engine.cache.invalidate id }
      writePages rest

/-- The last version of every page of the log, in the order of the ids. -/
def lastVersions (index : PageIndex) : List (PageId × PageData) :=
  index.entries.filterMap fun entry => entry.2.getLast?.map fun last => (entry.1, last.2)

/-- The user version in the header bytes of page 1. -/
def userVersionOf (page : PageData) : UInt32 := UInt32.ofNat (field page.val 60 4)

/-- A valid header over page 1, the sync, and an empty log. -/
def resetLog (inner : WalInner) : Exec StorageEngine StorageError Unit := do
  let dbSize := max (← onDisk DatabaseFile.pageCount) inner.dbSize
  let userVersion := ((← onDisk (DatabaseFile.readPage 1)).map userVersionOf).getD 0
  onDisk (DatabaseFile.writeHeader
    { pageSize := 4096
      dbSizePages := dbSize
      changeCounter := max inner.maxVersion.toUInt32 1
      schemaCookie := 1
      freelistTrunk := 0
      freelistCount := 0
      userVersion })
  onDisk DatabaseFile.sync
  onDisk (Disk.setLenLog 0)
  modify fun engine =>
    { engine with wal := { engine.wal with writeOffset := 0, index := FiniteMap.empty } }

/-- `WriteAheadLog::checkpoint`. -/
def foldLog : Exec StorageEngine StorageError Unit := do
  let inner := (← get).wal
  if inner.index.isEmpty then return ()
  else do
    writePages (lastVersions inner.index)
    resetLog inner

/-- Fold the log into the main file, unless a reader requires an older snapshot. -/
def checkpoint : Exec StorageEngine StorageError Unit := do
  let mvcc := (← get).mvcc
  if mvcc.oldestRequiredVersion < mvcc.currentVersion then return ()
  else foldLog

end StorageEngine

/-! ## Write transactions -/

structure WriteTx where
  snapshot : TransactionId
  pending : FiniteMap PageId RawPage
  localPageCount : UInt32
  /-- The one pushed last in front. -/
  localFreelist : List PageId
  finished : Bool

/-- A write transaction at work on its engine. -/
structure Writing where
  engine : StorageEngine
  tx : WriteTx

namespace StorageEngine

/-- Wait for the gate, and start from the committed state. -/
def beginWrite : Exec StorageEngine StorageError WriteTx := fun engine =>
  if engine.gate then .error .outOfFuel engine
  else .ok ⟨engine.mvcc.currentVersion, FiniteMap.empty, engine.pageCount, engine.freelist, false⟩
    { engine with gate := true }

end StorageEngine

namespace WriteTx

variable {α : Type}

/-- Run code on the engine. -/
def onEngine (code : Exec StorageEngine StorageError α) : Exec Writing StorageError α :=
  Exec.onPart Writing.engine (fun engine writing => { writing with engine }) code

def getPage (id : PageId) : Exec Writing StorageError RawPage := do
  let tx := (← get).tx
  match tx.pending.get? id with
  | some page => return page
  | none => onEngine (StorageEngine.readPageAt id tx.snapshot)

def writePage (page : RawPage) : Exec Writing StorageError Unit :=
  modify fun writing =>
    { writing with tx := { writing.tx with pending := writing.tx.pending.insert page.id page } }

def allocPage : Exec Writing StorageError PageId := fun writing =>
  match writing.tx.localFreelist with
  | id :: rest => .ok id { writing with tx := { writing.tx with localFreelist := rest } }
  | [] =>
      let count := writing.tx.localPageCount
      if count.toNat + 1 < 2 ^ 32 then
        .ok (count + 1) { writing with tx := { writing.tx with localPageCount := count + 1 } }
      else .error (.panic "attempt to add with overflow") writing

def freePage (id : PageId) : Exec Writing StorageError Unit :=
  modify fun writing => { writing with tx := { writing.tx with
    pending := writing.tx.pending.erase id
    localFreelist := id :: writing.tx.localFreelist } }

/-- `pending.values()`. A hash map is walked in some order of its keys. -/
def values (pending : FiniteMap PageId RawPage) (order : List PageId) : List RawPage :=
  if order.isPerm (pending.entries.map Prod.fst) then order.filterMap pending.get?
  else pending.entries.map Prod.snd

/-- Let the next writer through. -/
def finish (writing : Writing) : Writing :=
  if writing.tx.finished then writing
  else ⟨{ writing.engine with gate := false }, { writing.tx with finished := true }⟩

/-- The frame of a page, before it is stamped. -/
def frameOf (version : TransactionId) (salt : UInt32) (page : RawPage) : WalFrame :=
  ⟨page.id, version, 0, salt, page.data⟩

/-- The first half of a commit: reserve the next version and append the pending pages to the log
under it. -/
def appendPending (order : List PageId) : Exec Writing StorageError TransactionId := do
  let writing ← get
  let pending := writing.tx.pending
  let version ← Exec.lift writing.engine.mvcc.reserveCommitVersion
  if pending.isEmpty then return version
  else do
    let pages := values pending order
    modify fun writing => { writing with engine := { writing.engine with
      cache := pages.foldl (fun cache page => cache.invalidate page.id) writing.engine.cache } }
    onEngine (StorageEngine.onLog (WriteAheadLog.appendCommit
      (pages.map (frameOf version writing.engine.wal.salt)) version writing.tx.localPageCount))
    return version

/-- The second half: the version becomes the committed one, and the transaction is finished. -/
def publish (version : TransactionId) : Exec Writing StorageError Unit := do
  modify fun writing => { writing with engine := { writing.engine with
    mvcc := writing.engine.mvcc.publishCommit version
    pageCount := writing.tx.localPageCount
    freelist := writing.tx.localFreelist } }
  modify finish

/-- Append the pending pages and publish the version. -/
def commit (order : List PageId) : Exec Writing StorageError Unit := do
  let version ← appendPending order
  publish version

/-- `rollback`, and also `drop`. -/
def rollback : Exec Writing StorageError Unit := modify finish

instance : PageSink Writing where
  getPage := getPage
  allocPage := allocPage
  putPage := writePage
  freePage := freePage

end WriteTx

namespace StorageEngine

variable {α : Type}

/-- A write transaction that is dropped at the end, whether its code returns or fails. -/
def withTx (code : Exec Writing StorageError α) : Exec StorageEngine StorageError α := fun engine =>
  match beginWrite engine with
  | .error fault engine => .error fault engine
  | .ok tx engine =>
      match code ⟨engine, tx⟩ with
      | .ok value writing => .ok value (WriteTx.finish writing).engine
      | .error fault writing => .error fault (WriteTx.finish writing).engine

/-- Read `PRAGMA user_version`. -/
def userVersion : Exec StorageEngine StorageError UInt32 := do
  let snapshot ← beginRead
  fun engine =>
    match readPageAt 1 snapshot engine with
    | .ok page engine => .ok (userVersionOf page.data) (dropRead snapshot engine)
    | .error fault engine => .error fault (dropRead snapshot engine)

/-- Set `PRAGMA user_version`: patch four header bytes of page 1. -/
def setUserVersion (version : UInt32) : Exec StorageEngine StorageError Unit := withTx do
  let src ← WriteTx.getPage 1
  let data ← Exec.lift (src.data.copyFrom 60 (bigEndian 4 version.toNat))
  WriteTx.writePage ⟨1, data⟩
  WriteTx.commit [1]

end StorageEngine

end Squrust.Core
