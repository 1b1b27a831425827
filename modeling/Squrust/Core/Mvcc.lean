import Squrust.Foundation.FiniteMap
import Squrust.Foundation.MachineIntegers
import Squrust.Core.Page

/-!
# Versions and readers

The latest committed version, and for each version how many readers are pinned
to it. A checkpoint may discard what no reader requires: the oldest version a
reader is pinned to bounds the version of every reader
(`MvccManager.oldestRequired_le`).
-/

set_option autoImplicit false

namespace Squrust.Core

open Squrust.Foundation

abbrev TransactionId := UInt64

structure MvccManager where
  /-- The latest durably-committed version. -/
  committed : TransactionId
  /-- Active read snapshots: version and reference count. -/
  activeReaders : FiniteMap TransactionId Nat
deriving DecidableEq

namespace MvccManager

def new (initialCommitted : TransactionId) : MvccManager := ⟨initialCommitted, FiniteMap.empty⟩

def currentVersion (mvcc : MvccManager) : TransactionId := mvcc.committed

/-- Register a reader of a version: the second step of `begin_read`. -/
def register (mvcc : MvccManager) (version : TransactionId) : MvccManager :=
  { mvcc with activeReaders :=
      mvcc.activeReaders.insert version ((mvcc.activeReaders.get? version).getD 0 + 1) }

/-- Pin the current committed version. -/
def beginRead (mvcc : MvccManager) : TransactionId × MvccManager :=
  (mvcc.currentVersion, mvcc.register mvcc.currentVersion)

/-- Release a snapshot. -/
def endRead (mvcc : MvccManager) (snapshot : TransactionId) : MvccManager :=
  match mvcc.activeReaders.get? snapshot with
  | some count =>
      if count - 1 = 0 then { mvcc with activeReaders := mvcc.activeReaders.erase snapshot }
      else { mvcc with activeReaders := mvcc.activeReaders.insert snapshot (count - 1) }
  | none => mvcc

/-- The version of the next commit. -/
def reserveCommitVersion (mvcc : MvccManager) : Outcome StorageError TransactionId :=
  if mvcc.committed.toNat + 1 < 2 ^ 64 then .ok (mvcc.committed + 1)
  else .panic "attempt to add with overflow"

/-- `committed.set_at_least(version)`. -/
def publishCommit (mvcc : MvccManager) (version : TransactionId) : MvccManager :=
  { mvcc with committed := if mvcc.committed < version then version else mvcc.committed }

/-- The oldest version a reader depends on, or the committed one without readers. -/
def oldestRequiredVersion (mvcc : MvccManager) : TransactionId :=
  (mvcc.activeReaders.entries.head?.map Prod.fst).getD mvcc.committed

theorem committed_endRead (mvcc : MvccManager) (snapshot : TransactionId) :
    (mvcc.endRead snapshot).committed = mvcc.committed := by
  unfold endRead
  split
  · split
    · rfl
    · rfl
  · rfl

/-! ## Counting readers -/

/-- The counts are those of the given readers' versions. -/
def Counts (mvcc : MvccManager) (versions : List TransactionId) : Prop :=
  ∀ version, mvcc.activeReaders.get? version =
    if versions.count version = 0 then none else some (versions.count version)

variable {mvcc : MvccManager} {versions versions' : List TransactionId} {version : TransactionId}

theorem counts_new (initialCommitted : TransactionId) : (new initialCommitted).Counts [] := by
  intro version
  rw [List.count_nil, if_pos rfl]
  rfl

theorem Counts.perm (counts : mvcc.Counts versions) (same : versions.Perm versions') :
    mvcc.Counts versions' := by
  intro version
  rw [counts version, same.count_eq]

theorem Counts.register (counts : mvcc.Counts versions) (version : TransactionId) :
    (mvcc.register version).Counts (version :: versions) := by
  intro other
  rw [MvccManager.register, FiniteMap.get?_insert]
  by_cases same : other = version
  · subst same
    rw [if_pos rfl, List.count_cons_self, if_neg (Nat.succ_ne_zero _), counts other]
    split
    · next none => rw [none, Option.getD_none]
    · rw [Option.getD_some]
  · rw [if_neg same, List.count_cons_of_ne (Ne.symm same)]
    exact counts other

theorem Counts.endRead (counts : mvcc.Counts (version :: versions)) :
    (mvcc.endRead version).Counts versions := by
  intro other
  have here := counts version
  rw [List.count_cons_self, if_neg (Nat.succ_ne_zero _)] at here
  rw [MvccManager.endRead, here]
  simp only [Nat.add_sub_cancel]
  by_cases same : other = version
  · subst same
    split
    · exact FiniteMap.get?_erase_self _ _
    · exact FiniteMap.get?_insert_self _ _ _
  · have there := counts other
    rw [List.count_cons_of_ne (Ne.symm same)] at there
    rw [← there]
    split
    · exact FiniteMap.get?_erase_of_ne same
    · exact FiniteMap.get?_insert_of_ne same

/-- No reader is pinned to a version older than the oldest required one. -/
theorem oldestRequired_le (counts : mvcc.Counts versions) (among : version ∈ versions) :
    mvcc.oldestRequiredVersion ≤ version := by
  have here := counts version
  rw [if_neg (List.count_pos_iff.mpr among).ne'] at here
  exact FiniteMap.head_le here

end MvccManager

end Squrust.Core
