import Squrust.Core.Storage.Rollback

/-!
# Transactions on an opened database

What the engine promises its transactions, from the moment a database is opened:
reads show the state they were pinned to, a writer sees its own pages first, and
a transaction that does not commit leaves no trace (`snapshot_isolation`).
-/

set_option autoImplicit false

namespace Squrust.Core

open Squrust.Foundation

open StorageEngine (Sound Shows visible)

namespace StorageEngine

/-- The committed state of an engine. -/
def contents (engine : StorageEngine) : Contents :=
  visible engine.wal.index engine.disk.main engine.mvcc.committed

/-- An engine in order without transactions simulates the store with its committed state. -/
theorem Sound.simulates {engine : StorageEngine} (sound : engine.Sound [])
    (gate : engine.gate = false) : Simulates (Session.start engine) (Store.start engine.contents) where
  sound := sound
  committed _ data known := ⟨data, known, rfl⟩
  readers := .nil
  gate := gate
  writer := trivial

/-- The gate of an engine that was just opened is open. -/
theorem gate_of_openInner {disk after : Disk} {engine : StorageEngine}
    (opened : openInner disk = .ok engine after) : engine.gate = false := by
  rw [openInner, Exec.bind_eq_ok] at opened
  obtain ⟨header, between, -, opened⟩ := opened
  rw [Exec.bind_eq_ok] at opened
  obtain ⟨inner, between', -, opened⟩ := opened
  rw [Exec.bind_eq_ok] at opened
  obtain ⟨physical, between'', -, opened⟩ := opened
  rw [Exec.bind_eq_ok] at opened
  obtain ⟨disk', between''', -, opened⟩ := opened
  obtain ⟨rfl, -⟩ := EStateM.Result.ok.inj opened
  rfl

end StorageEngine

/-- After a transaction that did not commit, sessions are alike that had it and that had not. -/
theorem Simulates.rolledBack {session : Session} {store : Store} (simulates : Simulates session store)
    (closed : session.writer = none) {within : List EngineCall} {ending : EngineCall}
    (drafts : ∀ call ∈ within, call.OfDraft ∨ call.beside = true)
    (ends : ending = .rollback ∨ ending = .dropWrite) :
    Alike (session.run (.beginWrite :: within ++ [ending])).1
      (session.run (within.filter EngineCall.beside)).1 := by
  have gate : session.engine.gate = false := by
    rw [simulates.gate, closed]
    rfl
  have begun : Beside (session.step .beginWrite).1 session := by
    simp only [Session.step, closed, StorageEngine.beginWrite, gate, Bool.false_eq_true, if_false]
    exact ⟨rfl, rfl⟩
  obtain ⟨same, stillClosed⟩ :=
    beside_run begun (simulates.steps .beginWrite).2 simulates closed drafts
  have finish : ∀ after : Session, Beside after (after.step ending).1 ∧
      (after.step ending).1.writer = none := by
    intro after
    rcases ends with rfl | rfl
    · exact Session.onWriter_rollback _
    · exact Session.onWriter_rollback _
  rw [List.cons_append, Session.run_cons, Session.run_append]
  obtain ⟨finished, noWriter⟩ := finish ((session.step .beginWrite).1.run within).1
  have alike := finished.symm.trans same
  exact ⟨alike.engines, alike.readers, stillClosed.trans noWriter.symm⟩

/-- **Snapshot isolation.** On an opened database all replies conform to the store, and what is
called after a transaction that did not commit has the replies it has without it. -/
theorem snapshot_isolation {disk after : Disk} {engine : StorageEngine}
    (unbounded : disk.left = none) (opened : StorageEngine.openInner disk = .ok engine after) :
    (∀ calls, (Store.start engine.contents).Conforms calls ((Session.start engine).run calls).2) ∧
      ∀ before within ending later,
        ((Session.start engine).run before).1.writer = none →
        (∀ call ∈ within, call.OfDraft ∨ call.beside = true) →
        (ending = .rollback ∨ ending = .dropWrite) →
        List.Forall₂ EngineReply.Alike
          ((((Session.start engine).run before).1.run (.beginWrite :: within ++ [ending])).1.run
            later).2
          ((((Session.start engine).run before).1.run (within.filter EngineCall.beside)).1.run
            later).2 := by
  have simulates := (StorageEngine.openInner_sound unbounded opened).simulates
    (StorageEngine.gate_of_openInner opened)
  refine ⟨fun calls => (simulates.run calls).1, ?_⟩
  intro before within ending later closed drafts ends
  obtain ⟨-, store, reached⟩ := simulates.run before
  have alike := reached.rolledBack closed drafts ends
  obtain ⟨-, store', with_⟩ := reached.run (.beginWrite :: within ++ [ending])
  obtain ⟨-, store'', without⟩ := reached.run (within.filter EngineCall.beside)
  exact alike.run with_ without later

/-- A new database is opened. -/
theorem openInner_new :
    ∃ engine, StorageEngine.openInner ⟨[], [], none⟩ = .ok engine engine.disk ∧ engine.Sound [] ∧
      engine.disk.main = StorageEngine.firstPage.val ∧
      ∀ index, StorageEngine.Replays [] index → engine.wal.index = index :=
  StorageEngine.openInner_of_openFile rfl (@StorageEngine.openFile_of_empty ⟨[], [], none⟩ rfl rfl)
    ⟨StorageEngine.firstPage, pageAt_one StorageEngine.firstPage, StorageEngine.valid_firstPage⟩

/-- A new database: a reader keeps its state over a commit and a checkpoint, and a write of page 1
that is rolled back leaves no trace. -/
theorem snapshot_isolation_new :
    ∃ engine after, StorageEngine.openInner ⟨[], [], none⟩ = .ok engine after ∧
      (Store.start engine.contents).Conforms
        [.beginRead 0, .beginWrite, .allocPage, .writePage ⟨2, PageData.zero⟩, .commit [2],
          .checkpoint, .readPage 0 1]
        ((Session.start engine).run
          [.beginRead 0, .beginWrite, .allocPage, .writePage ⟨2, PageData.zero⟩, .commit [2],
            .checkpoint, .readPage 0 1]).2 ∧
      List.Forall₂ EngineReply.Alike
        ((((Session.start engine).run []).1.run
          (.beginWrite :: [.allocPage, .writePage ⟨1, PageData.zero⟩, .checkpoint] ++
            [.rollback])).1.run [.beginWrite, .allocPage, .getPage 1]).2
        ((((Session.start engine).run []).1.run
          ([.allocPage, .writePage ⟨1, PageData.zero⟩, .checkpoint].filter EngineCall.beside)).1.run
            [.beginWrite, .allocPage, .getPage 1]).2 := by
  obtain ⟨engine, opened, -⟩ := openInner_new
  obtain ⟨conforms, alike⟩ := snapshot_isolation rfl opened
  refine ⟨engine, engine.disk, opened, conforms _, alike [] _ .rollback _ rfl ?_ (Or.inl rfl)⟩
  intro call among
  rcases among with _ | ⟨_, _ | ⟨_, _ | ⟨_, none⟩⟩⟩
  · exact Or.inl trivial
  · exact Or.inl trivial
  · exact Or.inr rfl
  · cases none

end Squrust.Core
