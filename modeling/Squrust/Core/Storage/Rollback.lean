import Squrust.Foundation.Respects
import Squrust.Core.Storage.Isolation

/-!
# Transactions that are rolled back

A write transaction that is rolled back or dropped leaves nothing behind but
pages in the cache and the gate it opened again. What a call does and returns
depends on neither, as long as the cache mirrors the main file (`Alike.step`),
so later calls return what they return without the transaction
(`rolledBack_alike`).
-/

set_option autoImplicit false

namespace Squrust.Core

open Squrust.Foundation

open StorageEngine (Mirrors Sound visible)

/-! ## Engines that differ in their caches and gates -/

/-- Engines with the same files, log, versions and pages. -/
def SameData (first second : StorageEngine) : Prop :=
  second = { first with cache := second.cache, gate := second.gate }

namespace SameData

theorem refl (engine : StorageEngine) : SameData engine engine := rfl

variable {first second third : StorageEngine}

theorem symm (same : SameData first second) : SameData second first := by
  unfold SameData at same ⊢
  rw [same]

theorem trans (same : SameData first second) (same' : SameData second third) :
    SameData first third := by
  unfold SameData at same same' ⊢
  rw [same', same]

theorem disk (same : SameData first second) : second.disk = first.disk := by rw [same]

theorem wal (same : SameData first second) : second.wal = first.wal := by rw [same]

theorem mvcc (same : SameData first second) : second.mvcc = first.mvcc := by rw [same]

end SameData

open Exec (Respects)

namespace StorageEngine

variable {α : Type}

theorem respects_onDisk (code : Exec Disk StorageError α) : Respects SameData (onDisk code) := by
  refine .onPart (.ofEq code) (fun first second same => same.disk.symm) ?_
  rintro first second disk _ same rfl
  unfold SameData at same ⊢
  rw [same]

theorem respects_onLog (code : Exec WriteAheadLog StorageError α) :
    Respects SameData (onLog code) := by
  refine .onPart (.ofEq code) (fun first second same => ?_) ?_
  · rw [log, log, same.disk, same.wal]
  · rintro first second log _ same rfl
    unfold SameData at same ⊢
    rw [same]

theorem respects_writePages (pages : List (PageId × PageData)) :
    Respects SameData (writePages pages) := by
  induction pages with
  | nil => exact .pure ()
  | cons page rest ih =>
      refine .bind (respects_onDisk _) fun _ => .bind (.modifying fun first second same => ?_)
        fun _ => ih
      unfold SameData at same ⊢
      rw [same]

theorem respects_resetLog (inner : WalInner) : Respects SameData (resetLog inner) := by
  refine .bind (respects_onDisk _) fun _ => .bind (respects_onDisk _) fun _ =>
    .bind (respects_onDisk _) fun _ => .bind (respects_onDisk _) fun _ =>
    .bind (respects_onDisk _) fun _ => .modifying fun first second same => ?_
  unfold SameData at same ⊢
  rw [same]

theorem respects_foldLog : Respects SameData foldLog := by
  refine .read (fun engine => ?_) fun first second same => ?_
  · dsimp only
    split
    · exact .pure ()
    · exact .bind (respects_writePages _) fun _ => respects_resetLog _
  · rw [same.wal]

theorem respects_checkpoint : Respects SameData checkpoint := by
  refine .read (fun engine => ?_) fun first second same => ?_
  · dsimp only
    split
    · exact .pure ()
    · exact respects_foldLog
  · rw [same.mvcc]

end StorageEngine

/-- The same transaction on engines with the same data. -/
def SameWriting (first second : Writing) : Prop :=
  SameData first.engine second.engine ∧ first.tx = second.tx

namespace WriteTx

theorem respects_appendPending (order : List PageId) :
    Respects SameWriting (appendPending order) := by
  refine .read (fun writing => .bind (.lift _) fun version => ?_) fun first second same => ?_
  · split
    · exact .pure _
    · refine .bind (.modifying fun first second same => ?_) fun _ => .bind ?_ fun _ => .pure _
      · refine ⟨?_, same.2⟩
        have engines := same.1
        unfold SameData at engines ⊢
        rw [engines]
      · exact .onPart (StorageEngine.respects_onLog _) (fun _ _ same => same.1)
          fun _ _ _ _ same engines => ⟨engines, same.2⟩
  · rw [same.1.mvcc, same.1.wal, same.2]

theorem respects_publish (version : TransactionId) : Respects SameWriting (publish version) := by
  refine .bind (.modifying fun first second same => ?_) fun _ =>
    .modifying fun first second same => ?_
  · refine ⟨?_, same.2⟩
    obtain ⟨engines, txs⟩ := same
    unfold SameData at engines ⊢
    rw [engines, txs]
  · obtain ⟨engines, txs⟩ := same
    unfold finish
    rw [txs]
    split
    · exact ⟨engines, txs⟩
    · refine ⟨?_, rfl⟩
      unfold SameData at engines ⊢
      rw [engines]

theorem respects_commit (order : List PageId) : Respects SameWriting (commit order) :=
  .bind (respects_appendPending order) respects_publish

theorem respects_rollback : Respects SameWriting rollback := by
  refine .modifying fun first second same => ?_
  obtain ⟨engines, txs⟩ := same
  unfold finish
  rw [txs]
  split
  · exact ⟨engines, txs⟩
  · refine ⟨?_, rfl⟩
    unfold SameData at engines ⊢
    rw [engines]

end WriteTx

/-! ## Sessions that can not be told apart -/

/-- Equal replies, but for the file header on page 1. -/
def EngineReply.Alike : EngineReply → EngineReply → Prop
  | .page found, .page found' =>
      found.id = found'.id ∧ body found.id found.data = body found.id found'.data
  | reply, reply' => reply = reply'

theorem EngineReply.Alike.refl (reply : EngineReply) : reply.Alike reply := by
  cases reply with
  | page found => exact ⟨rfl, rfl⟩
  | _ => exact Eq.refl _

/-- The same readers and the same writer on the same data. -/
structure Alike (first second : Session) : Prop where
  engines : SameData first.engine second.engine
  readers : second.readers = first.readers
  writer : second.writer = first.writer

/-- Sessions and replies that are alike. -/
def AlikeAfter (first second : Session × EngineReply) : Prop :=
  Alike first.1 second.1 ∧ first.2.Alike second.2

namespace StorageEngine

variable {first second : StorageEngine}

/-- Lookups find the same, whatever is cached. -/
theorem readPageAt_alike (same : SameData first second) (mirrors : Mirrors first.cache first.disk.main)
    (mirrors' : Mirrors second.cache second.disk.main) (id : PageId) (version : TransactionId) :
    (∃ page page' cache cache', readPageAt id version first = .ok page { first with cache } ∧
        readPageAt id version second = .ok page' { second with cache := cache' } ∧
        (EngineReply.page page).Alike (.page page')) ∨
      ∃ fault, readPageAt id version first = .error fault first ∧
        readPageAt id version second = .error fault second := by
  have sameSees : visible second.wal.index second.disk.main version id =
      visible first.wal.index first.disk.main version id := by rw [same.wal, same.disk]
  cases sees : visible first.wal.index first.disk.main version id with
  | some data =>
      obtain ⟨page, cache, returned, named, body_, -⟩ := readPageAt_visible mirrors sees
      obtain ⟨page', cache', returned', named', body', -⟩ :=
        readPageAt_visible mirrors' (sameSees.trans sees)
      refine Or.inl ⟨page, page', cache, cache', returned, returned', named.trans named'.symm, ?_⟩
      rw [named]
      exact body_.trans body'.symm
  | none =>
      exact Or.inr ⟨_, readPageAt_missing mirrors sees,
        readPageAt_missing mirrors' (sameSees.trans sees)⟩

end StorageEngine

theorem SameData.withCaches {first second : StorageEngine} (same : SameData first second)
    (cache cache' : PageCache) :
    SameData { first with cache } { second with cache := cache' } := by
  unfold SameData at same ⊢
  rw [same]

namespace Alike

variable {first second : Session} {store store' : Store}

/-- A call on the writer that does not depend on the cache. -/
theorem onWriter (alike : Alike first second) {α : Type} {code : Exec Writing StorageError α}
    (respects : Respects SameWriting code) (reply : α → EngineReply) :
    AlikeAfter (first.onWriter code reply) (second.onWriter code reply) := by
  cases openTx : first.writer with
  | none =>
      rw [Session.onWriter_of_none openTx, Session.onWriter_of_none (alike.writer.trans openTx)]
      exact ⟨alike, .refl _⟩
  | some tx =>
      have openTx' := alike.writer.trans openTx
      have outcome := respects ⟨first.engine, tx⟩ ⟨second.engine, tx⟩ ⟨alike.engines, rfl⟩
      have still : ∀ writing writing', SameWriting writing writing' →
          Alike (first.stillOpen writing) (second.stillOpen writing') := by
        rintro writing writing' ⟨engines, txs⟩
        refine ⟨engines, alike.readers, ?_⟩
        simp only [Session.stillOpen, txs]
      rcases outcome.cases with
        ⟨value, writing, writing', ran, ran', same⟩ | ⟨fault, writing, writing', ran, ran', same⟩
      · rw [Session.onWriter_of_ok openTx ran, Session.onWriter_of_ok openTx' ran']
        exact ⟨still _ _ same, .refl _⟩
      · rw [Session.onWriter_of_error openTx ran, Session.onWriter_of_error openTx' ran']
        exact ⟨still _ _ same, .refl _⟩

/-- A call on the writer that changes nothing but the cache. -/
theorem getPage (alike : Alike first second) (mirrors : Mirrors first.engine.cache first.engine.disk.main)
    (mirrors' : Mirrors second.engine.cache second.engine.disk.main) (id : PageId) :
    AlikeAfter (first.step (.getPage id)) (second.step (.getPage id)) := by
  cases openTx : first.writer with
  | none =>
      simp only [Session.step, Session.onWriter_of_none openTx,
        Session.onWriter_of_none (alike.writer.trans openTx)]
      exact ⟨alike, .refl _⟩
  | some tx =>
      have openTx' := alike.writer.trans openTx
      cases own : tx.pending.get? id with
      | some page =>
          have ran := @WriteTx.getPage_of_some first.engine tx id page own
          have ran' := @WriteTx.getPage_of_some second.engine tx id page own
          simp only [Session.step, Session.onWriter_of_ok openTx ran,
            Session.onWriter_of_ok openTx' ran']
          exact ⟨⟨alike.engines, alike.readers, rfl⟩, .refl _⟩
      | none =>
          have looksUp := fun engine => @WriteTx.getPage_of_none engine tx id own
          rcases StorageEngine.readPageAt_alike alike.engines mirrors mirrors' id tx.snapshot with
            ⟨page, page', cache, cache', returned, returned', same⟩ | ⟨fault, failed, failed'⟩
          · have ran := (looksUp first.engine).trans (WriteTx.onEngine_of_ok returned)
            have ran' := (looksUp second.engine).trans (WriteTx.onEngine_of_ok returned')
            simp only [Session.step, Session.onWriter_of_ok openTx ran,
              Session.onWriter_of_ok openTx' ran']
            exact ⟨⟨alike.engines.withCaches cache cache', alike.readers, rfl⟩, same⟩
          · have ran := (looksUp first.engine).trans (WriteTx.onEngine_of_error failed)
            have ran' := (looksUp second.engine).trans (WriteTx.onEngine_of_error failed')
            simp only [Session.step, Session.onWriter_of_error openTx ran,
              Session.onWriter_of_error openTx' ran']
            exact ⟨⟨alike.engines, alike.readers, rfl⟩, .refl _⟩

end Alike

/-! ## Calls on a transaction and next to it -/

namespace EngineCall

/-- The calls of a write transaction before it ends. -/
def OfDraft : EngineCall → Prop
  | .getPage _ | .writePage _ | .allocPage | .freePage _ => True
  | _ => False

/-- The calls of readers, and checkpoints. -/
def beside : EngineCall → Bool
  | .beginRead _ | .readPage _ _ | .dropRead _ | .checkpoint => true
  | _ => false

end EngineCall

/-- The same readers on the same data; the writers do not matter. -/
structure Beside (first second : Session) : Prop where
  engines : SameData first.engine second.engine
  readers : second.readers = first.readers

theorem Alike.beside {first second : Session} (alike : Alike first second) : Beside first second :=
  ⟨alike.engines, alike.readers⟩

namespace Beside

variable {first second : Session}

theorem snapshot (same : Beside first second) (reader : Nat) :
    second.snapshot reader = first.snapshot reader := by
  rw [Session.snapshot, Session.snapshot, same.readers]

/-- Calls of readers and checkpoints do not depend on the writer, and leave it alone. -/
theorem step (same : Beside first second) (mirrors : Mirrors first.engine.cache first.engine.disk.main)
    (mirrors' : Mirrors second.engine.cache second.engine.disk.main) {call : EngineCall}
    (beside : call.beside = true) :
    Beside (first.step call).1 (second.step call).1 ∧
      (first.step call).2.Alike (second.step call).2 ∧
      (first.step call).1.writer = first.writer ∧ (second.step call).1.writer = second.writer := by
  cases call with
  | beginRead reader =>
      have snapshots := same.snapshot reader
      cases pinned : first.snapshot reader with
      | some snapshot =>
          simp only [Session.step, snapshots, pinned]
          exact ⟨same, .refl _, trivial, trivial⟩
      | none =>
          simp only [Session.step, snapshots, pinned, StorageEngine.beginRead,
            MvccManager.beginRead, same.engines.mvcc, same.readers]
          refine ⟨⟨?_, rfl⟩, .refl _, trivial, trivial⟩
          have engines := same.engines
          unfold SameData at engines ⊢
          rw [engines]
  | readPage reader id =>
      have snapshots := same.snapshot reader
      cases pinned : first.snapshot reader with
      | none =>
          simp only [Session.step, snapshots, pinned]
          exact ⟨same, .refl _, trivial, trivial⟩
      | some snapshot =>
          rcases StorageEngine.readPageAt_alike same.engines mirrors mirrors' id snapshot with
            ⟨page, page', cache, cache', returned, returned', alike⟩ | ⟨fault, failed, failed'⟩
          · simp only [Session.step, snapshots, pinned, returned, returned']
            exact ⟨⟨same.engines.withCaches cache cache', same.readers⟩, alike, trivial, trivial⟩
          · simp only [Session.step, snapshots, pinned, failed, failed']
            exact ⟨same, .refl _, trivial, trivial⟩
  | dropRead reader =>
      have snapshots := same.snapshot reader
      cases pinned : first.snapshot reader with
      | none =>
          simp only [Session.step, snapshots, pinned]
          exact ⟨same, .refl _, trivial, trivial⟩
      | some snapshot =>
          simp only [Session.step, snapshots, pinned, same.readers]
          refine ⟨⟨?_, rfl⟩, .refl _, trivial, trivial⟩
          have engines := same.engines
          unfold SameData at engines ⊢
          rw [engines]
          rfl
  | checkpoint =>
      have outcome := StorageEngine.respects_checkpoint first.engine second.engine same.engines
      rcases outcome.cases with
        ⟨value, engine, engine', ran, ran', engines⟩ | ⟨fault, engine, engine', ran, ran', engines⟩
      · simp only [Session.step, ran, ran']
        exact ⟨⟨engines, same.readers⟩, .refl _, trivial, trivial⟩
      · simp only [Session.step, ran, ran']
        exact ⟨⟨engines, same.readers⟩, .refl _, trivial, trivial⟩
  | beginWrite => cases beside
  | getPage id => cases beside
  | writePage page => cases beside
  | allocPage => cases beside
  | freePage id => cases beside
  | commit order => cases beside
  | rollback => cases beside
  | dropWrite => cases beside

end Beside

namespace Alike

variable {first second : Session} {store store' : Store}

/-- **Step.** A call on sessions that are alike has replies that are alike. -/
theorem step (alike : Alike first second) (simulates : Simulates first store)
    (simulates' : Simulates second store') (call : EngineCall) :
    AlikeAfter (first.step call) (second.step call) := by
  have mirrors := simulates.sound.mirrors
  have mirrors' := simulates'.sound.mirrors
  have ofBeside : call.beside = true → AlikeAfter (first.step call) (second.step call) := by
    intro beside
    obtain ⟨same, replies, writer, writer'⟩ := alike.beside.step mirrors mirrors' beside
    exact ⟨⟨same.engines, same.readers, writer'.trans (alike.writer.trans writer.symm)⟩, replies⟩
  cases call with
  | beginRead reader => exact ofBeside rfl
  | readPage reader id => exact ofBeside rfl
  | dropRead reader => exact ofBeside rfl
  | checkpoint => exact ofBeside rfl
  | beginWrite =>
      cases openTx : first.writer with
      | some tx =>
          simp only [Session.step, openTx, alike.writer]
          exact ⟨alike, .refl _⟩
      | none =>
          have openTx' := alike.writer.trans openTx
          have gate : first.engine.gate = false := by rw [simulates.gate, openTx]; rfl
          have gate' : second.engine.gate = false := by rw [simulates'.gate, openTx']; rfl
          have engines := alike.engines
          unfold SameData at engines
          simp only [Session.step, openTx, openTx', StorageEngine.beginWrite, gate, gate',
            Bool.false_eq_true, if_false]
          refine ⟨⟨?_, alike.readers, ?_⟩, .refl _⟩
          · unfold SameData
            rw [engines]
          · rw [engines]
  | getPage id => exact alike.getPage mirrors mirrors' id
  | writePage page =>
      have respects : Respects SameWriting (WriteTx.writePage page) :=
        .modifying fun before after same => ⟨same.1, by rw [same.2]⟩
      exact alike.onWriter respects _
  | allocPage =>
      refine alike.onWriter (fun before after same => ?_) _
      unfold WriteTx.allocPage
      rw [← same.2]
      cases before.tx.localFreelist with
      | cons id rest => exact ⟨rfl, same.1, by rw [same.2]⟩
      | nil =>
          dsimp only
          split
          · exact ⟨rfl, same.1, by rw [same.2]⟩
          · exact ⟨rfl, same⟩
  | freePage id =>
      have respects : Respects SameWriting (WriteTx.freePage id) :=
        .modifying fun before after same => ⟨same.1, by rw [same.2]⟩
      exact alike.onWriter respects _
  | commit order => exact alike.onWriter (WriteTx.respects_commit order) _
  | rollback => exact alike.onWriter WriteTx.respects_rollback _
  | dropWrite => exact alike.onWriter WriteTx.respects_rollback _

/-- **Run.** The replies to all calls are alike. -/
theorem run (alike : Alike first second) (simulates : Simulates first store)
    (simulates' : Simulates second store') (calls : List EngineCall) :
    List.Forall₂ EngineReply.Alike (first.run calls).2 (second.run calls).2 := by
  induction calls generalizing first second store store' with
  | nil => exact .nil
  | cons call rest ih =>
      obtain ⟨still, replies⟩ := alike.step simulates simulates' call
      exact .cons replies (ih still (simulates.steps call).2 (simulates'.steps call).2)

end Alike

/-! ## What a transaction leaves behind before it commits -/

theorem StorageEngine.sameData_readPageAt (id : PageId) (version : TransactionId)
    (engine : StorageEngine) : SameData engine (Exec.reached (readPageAt id version) engine) := by
  unfold Exec.reached readPageAt
  cases engine.wal.index.readPage id version with
  | some data => exact .refl engine
  | none =>
      dsimp only
      rcases engine.cache.get id with ⟨_ | page, cache⟩
      · cases pageAt engine.disk.main id with
        | some data => rfl
        | none => exact .refl engine
      · rfl

namespace Session

variable {session : Session} {call : EngineCall}

/-- A call on the writer leaves the data alone if its code does. -/
theorem sameData_onWriter {α : Type} {code : Exec Writing StorageError α} {reply : α → EngineReply}
    (leaves : ∀ writing, SameData writing.engine (Exec.reached code writing).engine) :
    Beside session (session.onWriter code reply).1 := by
  cases openTx : session.writer with
  | none =>
      rw [onWriter_of_none openTx]
      exact ⟨.refl _, rfl⟩
  | some tx =>
      have same := leaves ⟨session.engine, tx⟩
      cases ran : code ⟨session.engine, tx⟩ with
      | ok value writing =>
          rw [Exec.reached_of_ok ran] at same
          rw [onWriter_of_ok openTx ran]
          exact ⟨same, rfl⟩
      | error fault writing =>
          rw [Exec.reached_of_error ran] at same
          rw [onWriter_of_error openTx ran]
          exact ⟨same, rfl⟩

/-- The calls of a write transaction before it ends leave the data alone. -/
theorem beside_ofDraft (ofDraft : call.OfDraft) : Beside session (session.step call).1 := by
  cases call with
  | getPage id =>
      refine sameData_onWriter fun writing => ?_
      obtain ⟨engine, tx⟩ := writing
      cases own : tx.pending.get? id with
      | some page =>
          rw [Exec.reached_of_ok (WriteTx.getPage_of_some own)]
          exact .refl engine
      | none =>
          have looksUp := @WriteTx.getPage_of_none engine tx id own
          have same := StorageEngine.sameData_readPageAt id tx.snapshot engine
          cases read : StorageEngine.readPageAt id tx.snapshot engine with
          | ok page after =>
              rw [Exec.reached_of_ok (looksUp.trans (WriteTx.onEngine_of_ok read))]
              rwa [Exec.reached_of_ok read] at same
          | error fault after =>
              rw [Exec.reached_of_error (looksUp.trans (WriteTx.onEngine_of_error read))]
              rwa [Exec.reached_of_error read] at same
  | writePage page => exact sameData_onWriter fun writing => .refl _
  | allocPage =>
      refine sameData_onWriter fun writing => ?_
      unfold Exec.reached WriteTx.allocPage
      cases writing.tx.localFreelist with
      | cons id rest => exact .refl _
      | nil =>
          dsimp only
          split
          · next ran =>
            split at ran
            · cases ran
              exact .refl _
            · cases ran
          · next ran =>
            split at ran
            · cases ran
            · cases ran
              exact .refl _
  | freePage id => exact sameData_onWriter fun writing => .refl _
  | beginRead reader => exact ofDraft.elim
  | readPage reader id => exact ofDraft.elim
  | dropRead reader => exact ofDraft.elim
  | beginWrite => exact ofDraft.elim
  | commit order => exact ofDraft.elim
  | rollback => exact ofDraft.elim
  | dropWrite => exact ofDraft.elim
  | checkpoint => exact ofDraft.elim

/-- A rollback finishes the transaction and only opens the gate. -/
theorem onWriter_rollback (reply : Unit → EngineReply) :
    Beside session (session.onWriter WriteTx.rollback reply).1 ∧
      (session.onWriter WriteTx.rollback reply).1.writer = none := by
  cases openTx : session.writer with
  | none =>
      rw [onWriter_of_none openTx]
      exact ⟨⟨.refl _, rfl⟩, openTx⟩
  | some tx =>
      have ran : WriteTx.rollback ⟨session.engine, tx⟩ =
          .ok () (WriteTx.finish ⟨session.engine, tx⟩) := rfl
      rw [onWriter_of_ok openTx ran]
      unfold WriteTx.finish
      split
      · next finished =>
        exact ⟨⟨.refl _, rfl⟩, if_pos finished⟩
      · exact ⟨⟨rfl, rfl⟩, rfl⟩

theorem run_cons (session : Session) (call : EngineCall) (calls : List EngineCall) :
    session.run (call :: calls) = (((session.step call).1.run calls).1,
      (session.step call).2 :: ((session.step call).1.run calls).2) := rfl

theorem run_append (session : Session) (calls later : List EngineCall) :
    session.run (calls ++ later) =
      (((session.run calls).1.run later).1,
        (session.run calls).2 ++ ((session.run calls).1.run later).2) := by
  induction calls generalizing session with
  | nil => rfl
  | cons call rest ih =>
      simp only [List.cons_append, run, ih]

end Session

theorem Beside.trans {first second third : Session} (same : Beside first second)
    (same' : Beside second third) : Beside first third :=
  ⟨same.engines.trans same'.engines, same'.readers.trans same.readers⟩

theorem Beside.symm {first second : Session} (same : Beside first second) : Beside second first :=
  ⟨same.engines.symm, same.readers.symm⟩

/-- Next to a transaction, calls of readers and checkpoints do what they do without it. -/
theorem beside_run {first second : Session} {store store' : Store} (same : Beside first second)
    (simulates : Simulates first store) (simulates' : Simulates second store')
    (closed : second.writer = none) {calls : List EngineCall}
    (within : ∀ call ∈ calls, call.OfDraft ∨ call.beside = true) :
    Beside (first.run calls).1 (second.run (calls.filter EngineCall.beside)).1 ∧
      (second.run (calls.filter EngineCall.beside)).1.writer = none := by
  induction calls generalizing first second store store' with
  | nil => exact ⟨same, closed⟩
  | cons call rest ih =>
      have withinRest : ∀ call ∈ rest, call.OfDraft ∨ call.beside = true := fun call among =>
        within call (List.mem_cons_of_mem _ among)
      have after := (simulates.steps call).2
      cases beside : call.beside with
      | true =>
          obtain ⟨still, -, -, writer⟩ :=
            same.step simulates.sound.mirrors simulates'.sound.mirrors beside
          rw [List.filter_cons_of_pos beside]
          exact ih still after (simulates'.steps call).2 (writer.trans closed) withinRest
      | false =>
          have notBeside : ¬ call.beside = true := by
            rw [beside]
            exact Bool.false_ne_true
          have ofDraft := (within call List.mem_cons_self).resolve_right notBeside
          rw [List.filter_cons_of_neg notBeside]
          exact ih ((Session.beside_ofDraft ofDraft).symm.trans same) after simulates' closed
            withinRest

end Squrust.Core
