import Squrust.Foundation.FiniteMap
import Squrust.Foundation.MachineIntegers
import Squrust.Core.Disk
import Squrust.Core.Wal.Frame

/-!
# The write-ahead log

Committed pages are appended to the log as frames and kept in an index in
memory: for each page its versions in the order of the commits. A read at a
snapshot takes the last version the snapshot sees (`PageIndex.readPage`).
Appending a commit writes its frames behind the last good commit, syncs, and
only then enters them into the index (`appendCommit`); opening reads the frames
again, gives the index the transactions that end in a commit mark, and cuts the
log behind the last one (`replay`).
-/

set_option autoImplicit false

namespace Squrust.Core

open Squrust.Foundation

/-- A page id and its versions, oldest commit first. -/
abbrev PageIndex := FiniteMap PageId (List (UInt64 × PageData))

namespace PageIndex

/-- The versions of a page. -/
def versions (index : PageIndex) (id : PageId) : List (UInt64 × PageData) := (index.get? id).getD []

/-- `index.entry(page_id).or_default().push((version, data))`. -/
def push (version : UInt64) (index : PageIndex) (frame : WalFrame) : PageIndex :=
  index.insert frame.pageId (versions index frame.pageId ++ [(version, frame.data)])

/-- Enter the frames of one commit. -/
def pushAll (version : UInt64) (frames : List WalFrame) (index : PageIndex) : PageIndex :=
  frames.foldl (push version) index

/-- The latest version of a page that a snapshot sees. -/
def readPage (index : PageIndex) (id : PageId) (version : UInt64) : Option PageData :=
  ((versions index id).reverse.find? fun entry => entry.1 ≤ version).map Prod.snd

theorem versions_push (version : UInt64) (index : PageIndex) (frame : WalFrame) (id : PageId) :
    versions (push version index frame) id =
      versions index id ++ if frame.pageId = id then [(version, frame.data)] else [] := by
  rw [versions, push, FiniteMap.get?_insert]
  by_cases same : id = frame.pageId
  · subst same
    simp
  · rw [if_neg same, if_neg (Ne.symm same), List.append_nil, versions]

/-- A commit adds its pages to the versions in the order of its frames. -/
theorem versions_pushAll (version : UInt64) (frames : List WalFrame) (index : PageIndex)
    (id : PageId) :
    versions (pushAll version frames index) id = versions index id ++
      (frames.filter fun frame => frame.pageId = id).map fun frame => (version, frame.data) := by
  induction frames generalizing index with
  | nil => simp [pushAll]
  | cons frame rest ih =>
      rw [pushAll, List.foldl_cons, ← pushAll, ih, versions_push, List.append_assoc]
      by_cases same : frame.pageId = id
      · simp [same]
      · simp [same]

end PageIndex

/-- What the log keeps in memory. -/
structure WalInner where
  writeOffset : Nat
  index : PageIndex
  maxVersion : UInt64
  dbSize : UInt32
  salt : UInt32
deriving DecidableEq

/-- The log and the files it works on. -/
structure WriteAheadLog where
  disk : Disk
  inner : WalInner
deriving DecidableEq

namespace WalInner

/-- The salt of every log. -/
def salt0 : UInt32 := 0x51475253

/-- The state before the first frame is read. -/
def fresh (initialDbSize : UInt32) : WalInner := ⟨0, FiniteMap.empty, 0, initialDbSize, salt0⟩

/-- Enter a commit into the index. -/
def enter (inner : WalInner) (frames : List WalFrame) (version : UInt64) (dbSize : UInt32) :
    WalInner :=
  { inner with
    index := inner.index.pushAll version frames
    maxVersion := max inner.maxVersion version
    dbSize := dbSize }

end WalInner

/-! ## Appending -/

namespace WriteAheadLog

/-- The version on every frame, the size on the last one only. -/
def stamp (version : UInt64) (dbSize : UInt32) : List WalFrame → List WalFrame
  | [] => []
  | [frame] => [{ frame with commitVersion := version, dbSizeAfter := dbSize }]
  | frame :: next :: rest =>
      { frame with commitVersion := version, dbSizeAfter := 0 } :: stamp version dbSize (next :: rest)

/-- Write the frames one after the other; the offset behind the last one. -/
def writeFrames : List WalFrame → Nat → Exec Disk StorageError Nat
  | [], offset => pure offset
  | frame :: rest, offset => do
      Disk.writeLog offset frame.encode
      writeFrames rest (offset + frameSize)

/-- Run code on the files. -/
def onDisk {α : Type} (code : Exec Disk StorageError α) : Exec WriteAheadLog StorageError α :=
  Exec.onPart WriteAheadLog.disk (fun disk log => { log with disk := disk }) code

theorem onDisk_of_ok {α : Type} {code : Exec Disk StorageError α} {value : α} {disk reached : Disk}
    {inner : WalInner} (returned : code disk = .ok value reached) :
    onDisk code ⟨disk, inner⟩ = .ok value ⟨reached, inner⟩ := by
  simp only [onDisk, Exec.onPart, returned]

theorem onDisk_of_error {α : Type} {code : Exec Disk StorageError α} {fault : Fault StorageError}
    {disk reached : Disk} {inner : WalInner} (failed : code disk = .error fault reached) :
    onDisk code ⟨disk, inner⟩ = .error fault ⟨reached, inner⟩ := by
  simp only [onDisk, Exec.onPart, failed]

/-- Append the pages of one committed transaction. -/
def appendCommit (frames : List WalFrame) (version : UInt64) (dbSize : UInt32) :
    Exec WriteAheadLog StorageError Unit :=
  if frames.isEmpty then pure () else do
    let stamped := stamp version dbSize frames
    let log ← get
    let offset ← onDisk (writeFrames stamped log.inner.writeOffset)
    onDisk Disk.syncAll
    modify fun log =>
      { log with inner := { log.inner.enter stamped version dbSize with writeOffset := offset } }

/-! ## Replay -/

/-- What the loop over the frames of a log has read so far. -/
structure Replay where
  inner : WalInner
  offset : Nat
  lastCommitted : Nat
  /-- Frames of the transaction currently being read. -/
  pending : List WalFrame
deriving DecidableEq

namespace Replay

def start (inner : WalInner) : Replay := ⟨inner, 0, 0, []⟩

/-- Read one frame. A frame that ends a commit enters all pending ones under its version. -/
def read (state : Replay) (frame : WalFrame) : Replay :=
  let pending := state.pending ++ [frame]
  let offset := state.offset + frameSize
  if frame.isCommit then
    ⟨state.inner.enter pending frame.commitVersion frame.dbSizeAfter, offset, offset, []⟩
  else { state with offset := offset, pending := pending }

/-- Read frames until the file ends or a block is not a frame. There are at most as many rounds
as whole blocks. -/
def loop (file : Bytes) : Nat → Replay → Replay
  | 0, state => state
  | rounds + 1, state =>
      if state.offset + frameSize ≤ file.length then
        match WalFrame.decode ((file.drop state.offset).take frameSize) with
        | .ok frame => loop file rounds (state.read frame)
        | .error _ => state
      else state

end Replay

/-- Rebuild the index and cut what follows the last good commit. -/
def replay (inner : WalInner) : Exec Disk StorageError WalInner := do
  let disk ← get
  let len := disk.log.length
  let state := Replay.loop disk.log (len / frameSize) (Replay.start inner)
  if state.lastCommitted ≠ len then
    Disk.setLenLog state.lastCommitted
  pure { state.inner with writeOffset := state.lastCommitted }

/-- Open the log beside the main file. -/
def openLog (initialDbSize : UInt32) : Exec Disk StorageError WalInner :=
  replay (WalInner.fresh initialDbSize)

end WriteAheadLog

end Squrust.Core
