import Squrust.Core.Page

/-!
# The files of a database

A database is two files, the main file and the log. What a process keeps in
memory is lost in a crash, the files stay: a crash between two calls that
change a file leaves the files the calls so far have made, and a call that fails
changes nothing. How many more of these calls succeed is part of the disk
(`Disk.left`), so the state a failing run stops in is the state of a crash.

A file that is missing is an empty one, as opening creates it.
-/

set_option autoImplicit false

namespace Squrust.Core

open Squrust.Foundation

/-- The files of a database. -/
structure Disk where
  main : Bytes
  log : Bytes
  /-- How many more calls that change a file succeed; all of them without a number. -/
  left : Option Nat
deriving DecidableEq

namespace Disk

/-- A call that changes a file. -/
def change (effect : Disk → Disk) : Exec Disk StorageError Unit := fun disk =>
  match disk.left with
  | none => .ok () { effect disk with left := none }
  | some 0 => .error (.error (.io "write failed")) disk
  | some (left + 1) => .ok () { effect disk with left := some left }

/-- `main.write_all_at(bytes, offset)`. -/
def writeMain (offset : Nat) (bytes : Bytes) : Exec Disk StorageError Unit :=
  change fun disk => { disk with main := pwrite disk.main offset bytes }

/-- `log.write_all_at(bytes, offset)`. -/
def writeLog (offset : Nat) (bytes : Bytes) : Exec Disk StorageError Unit :=
  change fun disk => { disk with log := pwrite disk.log offset bytes }

/-- `log.set_len(length)`. -/
def setLenLog (length : Nat) : Exec Disk StorageError Unit :=
  change fun disk => { disk with log := setLen disk.log length }

/-- `sync_all`: what was written stays, also in a crash. -/
def syncAll : Exec Disk StorageError Unit := change id

theorem change_of_none {effect : Disk → Disk} {disk : Disk} (unbounded : disk.left = none) :
    change effect disk = .ok () { effect disk with left := none } := by
  simp only [change, unbounded]

/-- A call that succeeds uses up one. -/
theorem change_ok {effect : Disk → Disk} {disk : Disk} (enough : ∀ left ∈ disk.left, 1 ≤ left) :
    change effect disk = .ok () { effect disk with left := disk.left.map (· - 1) } := by
  unfold change
  cases budget : disk.left with
  | none => rfl
  | some left =>
      cases left with
      | zero => exact absurd (enough 0 budget) (by decide)
      | succ left => rfl

theorem change_of_zero {effect : Disk → Disk} {disk : Disk} (spent : disk.left = some 0) :
    change effect disk = .error (.error (.io "write failed")) disk := by
  simp only [change, spent]

theorem syncAll_failed {disk : Disk} (spent : disk.left = some 0) :
    syncAll disk = .error (.error (.io "write failed")) disk :=
  change_of_zero spent

theorem setLenLog_failed {disk : Disk} {length : Nat} (spent : disk.left = some 0) :
    setLenLog length disk = .error (.error (.io "write failed")) disk :=
  change_of_zero spent

/-! ## Without failures -/

theorem writeMain_ok {disk : Disk} {offset : Nat} {bytes : Bytes} (unbounded : disk.left = none) :
    writeMain offset bytes disk = .ok () { disk with main := pwrite disk.main offset bytes } := by
  rw [writeMain, change_of_none unbounded, ← unbounded]

theorem writeLog_ok {disk : Disk} {offset : Nat} {bytes : Bytes} (unbounded : disk.left = none) :
    writeLog offset bytes disk = .ok () { disk with log := pwrite disk.log offset bytes } := by
  rw [writeLog, change_of_none unbounded, ← unbounded]

theorem setLenLog_ok {disk : Disk} {length : Nat} (unbounded : disk.left = none) :
    setLenLog length disk = .ok () { disk with log := setLen disk.log length } := by
  rw [setLenLog, change_of_none unbounded, ← unbounded]

theorem syncAll_ok {disk : Disk} (unbounded : disk.left = none) : syncAll disk = .ok () disk := by
  rw [syncAll, change_of_none unbounded, ← unbounded]
  rfl

end Disk

end Squrust.Core
