import Squrust.Core.Storage.Allocation

/-!
# Pages over the life of a database

The pools of an engine and of its open transaction fit the ledger at every step
of a run: of calls, of which only some changes of the files may succeed, and of
closing and opening the files (`Steady.call`, `Kept.step`). So a page that is
handed out is held by no one (`allocation_safe`).

A transaction may be handed a page again that it freed itself, which the
committed state still holds. And opening the files forgets pages that were
counted by a commit without pages to log (`handed_out_again`).
-/

set_option autoImplicit false

namespace Squrust.Core

open Squrust.Foundation

/-- The pool of an open transaction fits what it holds. -/
def WriterFits : Option WriteTx → Option (List PageId) → Prop
  | none, none => True
  | some tx, some held => tx.finished = false ∧ Fits tx.localPageCount tx.localFreelist held
  | _, _ => False

/-- A session whose log is in order and whose pools fit the ledger. -/
structure Steady (session : Session) (ledger : Ledger) : Prop where
  logged : session.engine.Logged
  pool : Fits session.engine.pageCount session.engine.freelist ledger.live
  writer : WriterFits session.writer ledger.held

/-- What a call does. -/
structure Called (session : Session) (ledger : Ledger) (call : EngineCall) : Prop where
  steady : Steady (session.step call).1 (ledger.step call (session.step call).2)
  handsOut : ∀ id, (session.step call).2 = .allocated id →
    ∃ held, ledger.held = some held ∧ id ≠ 1 ∧ id ∉ held
  unchanged : (∀ order, call = .commit order → (session.step call).2 ≠ .done) →
    (session.step call).1.engine.pageCount = session.engine.pageCount ∧
      (session.step call).1.engine.freelist = session.engine.freelist

namespace Steady

variable {session : Session} {ledger : Ledger} {call : EngineCall}

/-- The transaction of a steady session, and what it holds. -/
theorem exists_held (steady : Steady session ledger) {tx : WriteTx}
    (openTx : session.writer = some tx) :
    ∃ held, ledger.held = some held ∧ tx.finished = false ∧
      Fits tx.localPageCount tx.localFreelist held := by
  have writer := steady.writer
  rw [openTx] at writer
  cases state : ledger.held with
  | none =>
      rw [state] at writer
      exact writer.elim
  | some held =>
      rw [state] at writer
      exact ⟨held, rfl, writer⟩

/-- A call that stores nothing and hands out nothing, with the writer it leaves. -/
theorem of_stored (steady : Steady session ledger)
    (stored : (session.step call).1.engine.stored = session.engine.stored)
    (handsOut : ∀ id, (session.step call).2 = .allocated id →
      ∃ held, ledger.held = some held ∧ id ≠ 1 ∧ id ∉ held)
    (live : (ledger.step call (session.step call).2).live = ledger.live)
    (writer : WriterFits (session.step call).1.writer
      (ledger.step call (session.step call).2).held) : Called session ledger call := by
  obtain ⟨disk, wal, count, free⟩ : (session.step call).1.engine.disk = session.engine.disk ∧
      (session.step call).1.engine.wal = session.engine.wal ∧
      (session.step call).1.engine.pageCount = session.engine.pageCount ∧
      (session.step call).1.engine.freelist = session.engine.freelist := by
    simpa only [StorageEngine.stored, Prod.mk.injEq] using stored
  refine ⟨⟨?_, ?_, writer⟩, handsOut, fun _ => ⟨count, free⟩⟩
  · exact steady.logged.of_stored (congrArg Disk.main disk) (congrArg Disk.log disk) wal
  · rw [count, free, live]
    exact steady.pool

/-- A call that leaves the writer and the ledger alone. -/
theorem of_writer (steady : Steady session ledger)
    (stored : (session.step call).1.engine.stored = session.engine.stored)
    (handsOut : ∀ id, (session.step call).2 ≠ .allocated id)
    (same : ledger.step call (session.step call).2 = ledger)
    (writer : (session.step call).1.writer = session.writer) : Called session ledger call := by
  refine steady.of_stored stored (fun id allocated => absurd allocated (handsOut id)) ?_ ?_
  · rw [same]
  · rw [same, writer]
    exact steady.writer

/-- A call on a transaction that is not open does nothing. -/
theorem noCall (steady : Steady session ledger) (idle : session.step call = (session, .noCall)) :
    Called session ledger call := by
  have same : ledger.step call .noCall = ledger := by cases call <;> rfl
  refine steady.of_writer ?_ ?_ ?_ ?_
  · rw [idle]
  · rw [idle]
    exact fun id => EngineReply.noConfusion
  · rw [idle]
    exact same
  · rw [idle]

end Steady

/-! ## Calls beside the writer -/

/-- Readers and checkpoints do not change the ledger. -/
theorem Ledger.step_beside {call : EngineCall} (beside : call.beside = true) (ledger : Ledger)
    (reply : EngineReply) : ledger.step call reply = ledger := by
  cases call with
  | beginRead reader => cases reply <;> rfl
  | readPage reader id => cases reply <;> rfl
  | dropRead reader => cases reply <;> rfl
  | checkpoint => cases reply <;> rfl
  | _ => cases beside

/-- They leave the writer alone, and allocate nothing. -/
theorem Session.step_beside {call : EngineCall} (beside : call.beside = true) (session : Session) :
    (session.step call).1.writer = session.writer ∧
      ∀ id, (session.step call).2 ≠ .allocated id := by
  cases call with
  | beginRead reader =>
      simp only [step]
      split
      · exact ⟨rfl, fun id => EngineReply.noConfusion⟩
      · exact ⟨rfl, fun id => EngineReply.noConfusion⟩
      · exact ⟨rfl, fun id => EngineReply.noConfusion⟩
  | readPage reader id =>
      simp only [step]
      split
      · exact ⟨rfl, fun id => EngineReply.noConfusion⟩
      · split
        · exact ⟨rfl, fun id => EngineReply.noConfusion⟩
        · exact ⟨rfl, fun id => EngineReply.noConfusion⟩
  | dropRead reader =>
      simp only [step]
      split
      · exact ⟨rfl, fun id => EngineReply.noConfusion⟩
      · exact ⟨rfl, fun id => EngineReply.noConfusion⟩
  | checkpoint =>
      simp only [step]
      split
      · exact ⟨rfl, fun id => EngineReply.noConfusion⟩
      · exact ⟨rfl, fun id => EngineReply.noConfusion⟩
  | _ => cases beside

namespace Steady

variable {session : Session} {ledger : Ledger}

theorem call_checkpoint (steady : Steady session ledger) : Called session ledger .checkpoint := by
  obtain ⟨writer, allocates⟩ := Session.step_beside (by rfl : EngineCall.checkpoint.beside = true)
    session
  have same := Ledger.step_beside (by rfl : EngineCall.checkpoint.beside = true) ledger
  have engine : (session.step .checkpoint).1.engine =
      Exec.reached StorageEngine.checkpoint session.engine := by
    unfold Exec.reached
    cases ran : StorageEngine.checkpoint session.engine with
    | ok value after => simp only [Session.step, ran]
    | error fault after => simp only [Session.step, ran]
  obtain ⟨logged, count, free⟩ := StorageEngine.checkpoint_logged steady.logged
  rw [← engine] at logged count free
  refine ⟨⟨logged, ?_, ?_⟩, fun id allocated => absurd allocated (allocates id), fun _ => ⟨count, free⟩⟩
  · rw [count, free, same]
    exact steady.pool
  · rw [writer, same]
    exact steady.writer

theorem call_beside (steady : Steady session ledger) {call : EngineCall}
    (beside : call.beside = true) (noCheckpoint : call ≠ .checkpoint) :
    Called session ledger call := by
  obtain ⟨writer, allocates⟩ := Session.step_beside beside session
  refine steady.of_writer (Session.stored_step ?_ noCheckpoint) allocates
    (Ledger.step_beside beside ledger _) writer
  rintro order rfl
  cases beside

theorem call_beginWrite (steady : Steady session ledger) : Called session ledger .beginWrite := by
  have stored : (session.step .beginWrite).1.engine.stored = session.engine.stored :=
    Session.stored_step (fun order same => by cases same) (fun same => by cases same)
  cases openTx : session.writer with
  | some tx =>
      refine steady.noCall ?_
      simp only [Session.step, openTx]
  | none =>
      cases gate : session.engine.gate with
      | true =>
          refine steady.of_writer stored ?_ ?_ ?_ <;>
            simp only [Session.step, StorageEngine.beginWrite, openTx, gate, if_true]
          · exact fun id => EngineReply.noConfusion
          · rfl
      | false =>
          refine steady.of_stored stored ?_ ?_ ?_ <;>
            simp only [Session.step, StorageEngine.beginWrite, openTx, gate, Bool.false_eq_true,
              if_false]
          · exact fun id => EngineReply.noConfusion
          · rfl
          · exact ⟨rfl, steady.pool⟩

/-! ## Calls on the writer -/

/-- A call on the writer that stores nothing and leaves its pool alone. -/
theorem call_getPage (steady : Steady session ledger) (id : PageId) :
    Called session ledger (.getPage id) := by
  have stored : (session.step (.getPage id)).1.engine.stored = session.engine.stored :=
    Session.stored_step (fun order same => by cases same) (fun same => by cases same)
  cases openTx : session.writer with
  | none => exact steady.noCall (Session.onWriter_of_none openTx)
  | some tx =>
      obtain ⟨held, -, unfinished, -⟩ := steady.exists_held openTx
      have after : ∃ engine reply, session.step (.getPage id) =
          ({ session with engine, writer := some tx }, reply) ∧ ∀ other, reply ≠ .allocated other := by
        have reached : ∀ engine : StorageEngine, session.stillOpen ⟨engine, tx⟩ =
            { session with engine, writer := some tx } := by
          intro engine
          simp only [Session.stillOpen, unfinished, Bool.false_eq_true, if_false]
        have begun : session.step (.getPage id) = session.onWriter (WriteTx.getPage id) .page := rfl
        cases own : tx.pending.get? id with
        | some page =>
            rw [begun, Session.onWriter_of_ok openTx (WriteTx.getPage_of_some own), reached]
            exact ⟨_, _, rfl, fun other => EngineReply.noConfusion⟩
        | none =>
            have ran := @WriteTx.getPage_of_none session.engine tx id own
            cases read : StorageEngine.readPageAt id tx.snapshot session.engine with
            | ok page engine =>
                rw [begun, Session.onWriter_of_ok openTx (ran.trans (WriteTx.onEngine_of_ok read)),
                  reached]
                exact ⟨_, _, rfl, fun other => EngineReply.noConfusion⟩
            | error fault engine =>
                rw [begun, Session.onWriter_of_error openTx
                  (ran.trans (WriteTx.onEngine_of_error read)), reached]
                exact ⟨_, _, rfl, fun other => EngineReply.noConfusion⟩
      obtain ⟨engine, reply, same, allocates⟩ := after
      refine steady.of_writer stored ?_ ?_ ?_
      · rw [same]
        exact allocates
      · cases (session.step (.getPage id)).2 <;> rfl
      · rw [same]
        exact openTx.symm

theorem call_writePage (steady : Steady session ledger) (page : RawPage) :
    Called session ledger (.writePage page) := by
  have stored : (session.step (.writePage page)).1.engine.stored = session.engine.stored :=
    Session.stored_step (fun order same => by cases same) (fun same => by cases same)
  have begun : session.step (.writePage page) =
      session.onWriter (WriteTx.writePage page) fun _ => .done := rfl
  cases openTx : session.writer with
  | none => exact steady.noCall (begun.trans (Session.onWriter_of_none openTx))
  | some tx =>
      obtain ⟨held, holds, unfinished, fits⟩ := steady.exists_held openTx
      have wrote : WriteTx.writePage page ⟨session.engine, tx⟩ = .ok () ⟨session.engine,
          { tx with pending := tx.pending.insert page.id page }⟩ := rfl
      have ran := begun.trans (Session.onWriter_of_ok openTx wrote)
      refine steady.of_stored stored ?_ ?_ ?_ <;> rw [ran]
      · exact fun id => EngineReply.noConfusion
      · rfl
      · simp only [Session.stillOpen, unfinished, Bool.false_eq_true, if_false, Ledger.step, holds]
        exact ⟨rfl, fits⟩

/-- **Allocation.** What is handed out is held by no one, and is held then. -/
theorem call_allocPage (steady : Steady session ledger) : Called session ledger .allocPage := by
  have stored : (session.step .allocPage).1.engine.stored = session.engine.stored :=
    Session.stored_step (fun order same => by cases same) (fun same => by cases same)
  cases openTx : session.writer with
  | none => exact steady.noCall (Session.onWriter_of_none openTx)
  | some tx =>
      obtain ⟨held, holds, unfinished, fits⟩ := steady.exists_held openTx
      cases free : tx.localFreelist with
      | cons id rest =>
          rw [free] at fits
          obtain ⟨fresh, still⟩ := fits.reuse
          have ran : session.step .allocPage = (session.stillOpen ⟨session.engine,
              { tx with localFreelist := rest }⟩, .allocated id) :=
            Session.onWriter_of_ok openTx (by simp only [WriteTx.allocPage, free])
          refine steady.of_stored stored ?_ ?_ ?_ <;> rw [ran]
          · intro other same
            cases same
            exact ⟨held, holds, fresh⟩
          · rfl
          · simp only [Session.stillOpen, unfinished, Bool.false_eq_true, if_false, Ledger.step, holds]
            exact ⟨rfl, still⟩
      | nil =>
          rw [free] at fits
          by_cases room : tx.localPageCount.toNat + 1 < 2 ^ 32
          · obtain ⟨fresh, still⟩ := fits.grow room
            have ran : session.step .allocPage = (session.stillOpen ⟨session.engine,
                { tx with localPageCount := tx.localPageCount + 1 }⟩,
                .allocated (tx.localPageCount + 1)) :=
              Session.onWriter_of_ok openTx (by simp only [WriteTx.allocPage, free, room, if_true])
            refine steady.of_stored stored ?_ ?_ ?_ <;> rw [ran]
            · intro other same
              cases same
              exact ⟨held, holds, fresh⟩
            · rfl
            · simp only [Session.stillOpen, unfinished, Bool.false_eq_true, if_false, Ledger.step,
                holds]
              rw [← free] at still
              exact ⟨rfl, still⟩
          · have ran : session.step .allocPage = (session.stillOpen ⟨session.engine, tx⟩,
                .failed (.panic "attempt to add with overflow")) :=
              Session.onWriter_of_error openTx (by simp only [WriteTx.allocPage, free, room, if_false])
            refine steady.of_writer stored ?_ ?_ ?_ <;> rw [ran]
            · exact fun id => EngineReply.noConfusion
            · rfl
            · simp only [Session.stillOpen, unfinished, Bool.false_eq_true, if_false, openTx]

/-- A held page is freed. -/
theorem call_freePage (steady : Steady session ledger) {id : PageId}
    (isHeld : ∀ held ∈ ledger.held, id ∈ held) : Called session ledger (.freePage id) := by
  have stored : (session.step (.freePage id)).1.engine.stored = session.engine.stored :=
    Session.stored_step (fun order same => by cases same) (fun same => by cases same)
  have begun : session.step (.freePage id) =
      session.onWriter (WriteTx.freePage id) fun _ => .done := rfl
  cases openTx : session.writer with
  | none => exact steady.noCall (begun.trans (Session.onWriter_of_none openTx))
  | some tx =>
      obtain ⟨held, holds, unfinished, fits⟩ := steady.exists_held openTx
      have freed : WriteTx.freePage id ⟨session.engine, tx⟩ = .ok () ⟨session.engine,
          { tx with
            pending := tx.pending.erase id
            localFreelist := id :: tx.localFreelist }⟩ := rfl
      have ran := begun.trans (Session.onWriter_of_ok openTx freed)
      refine steady.of_stored stored ?_ ?_ ?_ <;> rw [ran]
      · exact fun id => EngineReply.noConfusion
      · rfl
      · simp only [Session.stillOpen, unfinished, Bool.false_eq_true, if_false, Ledger.step, holds]
        exact ⟨rfl, fits.release (isHeld held holds)⟩

/-- A transaction that is rolled back or dropped: the call and what it does to the ledger. -/
theorem call_rollback (steady : Steady session ledger) {call : EngineCall}
    (isRollback : session.step call = session.onWriter WriteTx.rollback fun _ => .done)
    (stored : (session.step call).1.engine.stored = session.engine.stored)
    (closes : ledger.step call .done = { ledger with held := none }) :
    Called session ledger call := by
  cases openTx : session.writer with
  | none => exact steady.noCall (isRollback.trans (Session.onWriter_of_none openTx))
  | some tx =>
      have writer : (session.step call).1.writer = none := by
        rw [isRollback]
        exact (Session.onWriter_rollback _).2
      have reply : (session.step call).2 = .done := by
        have ran : WriteTx.rollback ⟨session.engine, tx⟩ =
            .ok () (WriteTx.finish ⟨session.engine, tx⟩) := rfl
        rw [isRollback, Session.onWriter_of_ok openTx ran]
      refine steady.of_stored stored ?_ ?_ ?_ <;> rw [reply]
      · exact fun id => EngineReply.noConfusion
      · rw [closes]
      · rw [closes, writer]
        trivial

/-- **Commit.** What the transaction holds is committed, or nothing is. -/
theorem call_commit (steady : Steady session ledger) (order : List PageId) :
    Called session ledger (.commit order) := by
  cases openTx : session.writer with
  | none => exact steady.noCall (Session.onWriter_of_none openTx)
  | some tx =>
      obtain ⟨held, holds, unfinished, fits⟩ := steady.exists_held openTx
      have sized : tx.localPageCount ≠ 0 := by
        intro zero
        have positive := fits.positive
        rw [zero] at positive
        exact absurd positive (by decide)
      rcases WriteTx.commit_logged order steady.logged unfinished sized with
        ⟨after, ran, logged, count, free⟩ | ⟨fault, after, ran, logged, count, free⟩
      · have done : session.step (.commit order) =
            (session.stillOpen ⟨after, { tx with finished := true }⟩, .done) :=
          Session.onWriter_of_ok openTx ran
        refine ⟨⟨?_, ?_, ?_⟩, ?_, ?_⟩ <;> rw [done]
        · exact logged
        · simp only [Ledger.step, holds, Option.getD_some, Session.stillOpen]
          rw [count, free]
          exact fits
        · simp only [Session.stillOpen, if_true, Ledger.step]
          trivial
        · exact fun id => EngineReply.noConfusion
        · exact fun never => absurd rfl (never order rfl)
      · have failed : session.step (.commit order) =
            (session.stillOpen ⟨after, tx⟩, .failed fault) :=
          Session.onWriter_of_error openTx ran
        refine ⟨⟨?_, ?_, ?_⟩, ?_, ?_⟩ <;> rw [failed]
        · exact logged
        · simp only [Ledger.step, Session.stillOpen]
          rw [count, free]
          exact steady.pool
        · simp only [Session.stillOpen, unfinished, Bool.false_eq_true, if_false, Ledger.step, holds]
          exact ⟨unfinished, fits⟩
        · exact fun id => EngineReply.noConfusion
        · exact fun _ => ⟨count, free⟩

/-- **Call.** Every call keeps a session steady, when pages that are freed are held. -/
theorem call (steady : Steady session ledger) (call : EngineCall)
    (isHeld : ∀ id, call = .freePage id → ∀ held ∈ ledger.held, id ∈ held) :
    Called session ledger call := by
  cases call with
  | beginRead reader => exact steady.call_beside rfl (by nofun)
  | readPage reader id => exact steady.call_beside rfl (by nofun)
  | dropRead reader => exact steady.call_beside rfl (by nofun)
  | beginWrite => exact steady.call_beginWrite
  | getPage id => exact steady.call_getPage id
  | writePage page => exact steady.call_writePage page
  | allocPage => exact steady.call_allocPage
  | freePage id => exact steady.call_freePage (isHeld id rfl)
  | commit order => exact steady.call_commit order
  | rollback =>
      exact steady.call_rollback rfl (Session.stored_step (by nofun) (by nofun)) rfl
  | dropWrite =>
      exact steady.call_rollback rfl (Session.stored_step (by nofun) (by nofun)) rfl
  | checkpoint => exact steady.call_checkpoint

end Steady

/-! ## Runs -/

namespace Life

/-- A database in use: every change of its files may succeed, and it is steady. -/
structure Kept (life : Life) : Prop where
  unbounded : life.session.engine.disk.left = none
  steady : Steady life.session life.ledger

variable {life after : Life} {reply : EngineReply}

theorem mem_counted {count id : PageId} :
    id ∈ counted count ↔ 2 ≤ id.toNat ∧ id.toNat ≤ count.toNat := by
  rw [counted, List.mem_map]
  constructor
  · rintro ⟨number, range, rfl⟩
    rw [List.mem_range'_1] at range
    have below := count.toNat_lt
    rw [UInt32.toNat_ofNat', Nat.mod_eq_of_lt (by omega)]
    omega
  · intro range
    refine ⟨id.toNat, ?_, UInt32.ofNat_toNat⟩
    rw [List.mem_range'_1]
    omega

/-- What was opened is kept, with all counted pages. -/
theorem kept_start {disk files : Disk} {engine : StorageEngine} (unbounded : disk.left = none)
    (opened : StorageEngine.openInner disk = .ok engine files) : Kept (start engine) := by
  obtain ⟨-, free, -, count⟩ := StorageEngine.openInner_parts unbounded opened
  have positive : (1 : PageId) ≤ engine.pageCount := by
    rw [count]
    exact le_max_right _ _
  refine ⟨(StorageEngine.openInner_sound unbounded opened).unbounded,
    StorageEngine.logged_of_opened unbounded opened, ?_, trivial⟩
  change Fits engine.pageCount engine.freelist (counted engine.pageCount)
  rw [free]
  exact ⟨UInt32.le_iff_toNat_le.mp positive, List.nodup_nil, nofun, nofun, fun id => mem_counted.mp⟩

theorem freeListValid {count : PageId} {free held : List PageId} (fits : Fits count free held) :
    FreeListValid count free :=
  ⟨fits.nodup, fun id among => UInt32.le_iff_toNat_le.mpr (fits.free_range id among).2⟩

/-- The lists of free pages of what is kept. -/
theorem Kept.lists (kept : Kept life) :
    FreeListValid life.session.engine.pageCount life.session.engine.freelist ∧
      ∀ tx ∈ life.session.writer, FreeListValid tx.localPageCount tx.localFreelist := by
  refine ⟨freeListValid kept.steady.pool, fun tx openTx => ?_⟩
  obtain ⟨held, -, -, fits⟩ := kept.steady.exists_held openTx
  exact freeListValid fits

/-- The files are opened again. -/
theorem Kept.reopen (kept : Kept life) (ran : life.step .reopen = some (after, reply))
    (records : life.RecordsPages .reopen reply after) : Kept after ∧ reply = .done := by
  obtain ⟨recorded, noMark⟩ := records rfl
  simp only [step] at ran
  split at ran
  · next engine files opened =>
    obtain ⟨rfl, rfl⟩ := Prod.mk.inj (Option.some.inj ran)
    obtain ⟨-, free, -, count⟩ := StorageEngine.openInner_parts kept.unbounded opened
    have more : life.session.engine.pageCount ≤ engine.pageCount := by
      have recordsAgain :=
        StorageEngine.recordedPages_le kept.steady.logged noMark kept.unbounded opened
      rw [count]
      exact recorded.trans (recordsAgain.trans (le_max_left _ _))
    refine ⟨⟨(StorageEngine.openInner_sound kept.unbounded opened).unbounded,
      StorageEngine.logged_of_opened kept.unbounded opened, ?_, trivial⟩, rfl⟩
    change Fits engine.pageCount engine.freelist life.ledger.live
    rw [free]
    exact kept.steady.pool.forget more
  · cases ran

/-- **Step.** What is kept stays so, and allocation does what it promises. -/
theorem Kept.step (kept : Kept life) {event : LifeEvent}
    (ran : life.step event = some (after, reply)) (frees : life.FreesHeld event reply after)
    (records : life.RecordsPages event reply after) :
    Kept after ∧ Allocates life event reply after := by
  cases event with
  | reopen =>
      obtain ⟨still, rfl⟩ := kept.reopen ran records
      obtain ⟨engineList, writerList⟩ := still.lists
      exact ⟨still, fun id never => (by cases never), engineList, writerList, fun other => absurd rfl other⟩
  | call left call =>
      obtain ⟨rfl, rfl⟩ := Prod.mk.inj (Option.some.inj ran)
      have limited : Steady (limit life.session left) life.ledger :=
        ⟨kept.steady.logged.of_stored rfl rfl rfl, kept.steady.pool, kept.steady.writer⟩
      have called := limited.call call (by
        rintro id rfl
        exact frees id rfl)
      have still : Kept ⟨limit ((limit life.session left).step call).1 none,
          life.ledger.step call ((limit life.session left).step call).2⟩ :=
        ⟨rfl, called.steady.logged.of_stored rfl rfl rfl, called.steady.pool, called.steady.writer⟩
      obtain ⟨engineList, writerList⟩ := still.lists
      refine ⟨still, fun id handedOut => ?_, engineList, writerList, fun _ noCommit => ?_⟩
      · refine called.handsOut id ?_
        unfold EngineReply.handedOut at handedOut
        split at handedOut
        · next allocated =>
          rw [allocated, Option.mem_some_iff.mp handedOut]
        · cases handedOut
      · exact called.unchanged fun order same => noCommit left order (by rw [same])

/-- **Run.** Along every run whose frees are of held pages and whose openings find the count. -/
theorem Kept.run (kept : Kept life) (events : List LifeEvent) (frees : life.Along FreesHeld events)
    (records : life.Along RecordsPages events) : life.Along Allocates events := by
  induction events generalizing life with
  | nil => trivial
  | cons event rest ih =>
      unfold Along at frees records ⊢
      split
      · next after reply ran =>
        rw [ran] at frees records
        obtain ⟨still, allocates⟩ := kept.step ran frees.1 records.1
        exact ⟨allocates, ih still frees.2 records.2⟩
      · trivial

end Life

/-- **Allocation.** On every database and in every run of calls, any of which may fail at any change
of the files, and of closing and opening the files, where pages that are freed are held and the
page count is recorded when the files are opened: a page that is handed out is not page 1 and held
by no one, no list of free pages has a page twice or one that is not counted, and only commits that
return change the pool of the engine. -/
theorem allocation_safe {disk after : Disk} {engine : StorageEngine} (unbounded : disk.left = none)
    (opened : StorageEngine.openInner disk = .ok engine after) (events : List LifeEvent)
    (frees : (Life.start engine).Along Life.FreesHeld events)
    (records : (Life.start engine).Along Life.RecordsPages events) :
    (Life.start engine).Along Life.Allocates events :=
  (Life.kept_start unbounded opened).run events frees records

namespace Life

/-- What holds of the events wherever they come holds along the run. -/
theorem along_of_events {Holds : Life → LifeEvent → EngineReply → Life → Prop}
    {events : List LifeEvent}
    (everywhere : ∀ event ∈ events, ∀ life reply after, Holds life event reply after) (life : Life) :
    life.Along Holds events := by
  induction events generalizing life with
  | nil => trivial
  | cons event rest ih =>
      unfold Along
      split
      · next after reply ran =>
        exact ⟨everywhere event List.mem_cons_self life reply after,
          ih (fun other among => everywhere other (List.mem_cons_of_mem _ among)) after⟩
      · trivial

/-- A page that is handed out is also no page of the committed state. -/
def HandsOutNew (life : Life) (_ : LifeEvent) (reply : EngineReply) (_ : Life) : Prop :=
  ∀ id ∈ reply.handedOut, id ≠ 1 ∧ id ∉ life.ledger.live ∧ ∀ held ∈ life.ledger.held, id ∉ held

instance (life : Life) (event : LifeEvent) (reply : EngineReply) (after : Life) :
    Decidable (HandsOutNew life event reply after) :=
  Option.decidableForallMem reply.handedOut

instance (life : Life) (event : LifeEvent) (reply : EngineReply) (after : Life) :
    Decidable (FreesHeld life event reply after) :=
  Option.decidableForallMem event.freed

instance decidableAlong {Holds : Life → LifeEvent → EngineReply → Life → Prop}
    [∀ life event reply after, Decidable (Holds life event reply after)] :
    (life : Life) → (events : List LifeEvent) → Decidable (life.Along Holds events)
  | _, [] => isTrue trivial
  | life, event :: events =>
      match stepped : life.step event with
      | some (after, reply) =>
          have := @decidableAlong Holds _ after events
          decidable_of_iff (Holds life event reply after ∧ Along Holds after events) (by
            simp only [Along, stepped])
      | none => isTrue (by simp only [Along, stepped])

end Life

/-- A new database that is closed and opened again before its first page is allocated. -/
def reopensFirst : List LifeEvent := [.reopen, .call none .beginWrite, .call none .allocPage]

theorem allocation_safe_reopened :
    ∃ engine after, StorageEngine.openInner ⟨[], [], none⟩ = .ok engine after ∧
      (Life.start engine).Along Life.Allocates reopensFirst := by
  have sizes : Exec.leaves StorageEngine.openInner ⟨[], [], none⟩ (fun engine _ =>
      engine.disk.log.isEmpty && decide (engine.pageCount ≤ engine.recordedPages)) = true := by
    decide +kernel
  obtain ⟨engine, opened, -⟩ := openInner_new
  simp only [Exec.leaves, opened, Bool.and_eq_true, List.isEmpty_iff, decide_eq_true_eq] at sizes
  obtain ⟨empty, recorded⟩ := sizes
  refine ⟨engine, engine.disk, opened, allocation_safe rfl opened reopensFirst ?_ ?_⟩
  · refine Life.along_of_events (fun event among life reply after id isFreed => ?_) _
    simp only [reopensFirst, List.mem_cons, List.not_mem_nil, or_false] at among
    rcases among with rfl | rfl | rfl <;> cases isFreed
  · unfold reopensFirst Life.Along
    split
    · refine ⟨fun _ => ⟨recorded, fun whole rest frames split holds => ?_⟩,
        Life.along_of_events (fun event among life reply after isReopen => ?_) _⟩
      · have nothing : whole = [] := by
          have none : engine.disk.log.drop engine.wal.writeOffset = [] := by
            rw [empty, List.drop_nil]
          exact (List.append_eq_nil_iff.mp (split.symm.trans none)).1
        have size := holds.length_eq
        rw [nothing, List.length_nil] at size
        have none : frames = [] :=
          List.length_eq_zero_iff.mp ((Nat.mul_eq_zero.mp size.symm).resolve_right (by decide))
        rw [none]
        exact fun frame among => by cases among
      · simp only [List.mem_cons, List.not_mem_nil, or_false] at among
        rcases among with rfl | rfl <;> cases isReopen
    · trivial

/-- A page is allocated and committed; then it is freed and allocated in one transaction. -/
def freesAndAllocates : List LifeEvent :=
  [.call none .beginWrite, .call none .allocPage, .call none (.commit []), .call none .beginWrite,
    .call none (.freePage 2), .call none .allocPage]

/-- A page is allocated and committed, but not written, and the files are opened again. -/
def allocatesUnwritten : List LifeEvent :=
  [.call none .beginWrite, .call none .allocPage, .call none (.commit []), .reopen,
    .call none .beginWrite, .call none .allocPage]

/-- In both runs page 2 is handed out while the committed state holds it. -/
theorem handed_out_again :
    ∃ engine after, StorageEngine.openInner ⟨[], [], none⟩ = .ok engine after ∧
      ∀ events ∈ [freesAndAllocates, allocatesUnwritten],
        (Life.start engine).Along Life.FreesHeld events ∧
          ¬ (Life.start engine).Along Life.HandsOutNew events := by
  have refuted : Exec.leaves StorageEngine.openInner ⟨[], [], none⟩ (fun engine _ =>
      decide (∀ events ∈ [freesAndAllocates, allocatesUnwritten],
        (Life.start engine).Along Life.FreesHeld events ∧
          ¬ (Life.start engine).Along Life.HandsOutNew events)) = true := by decide +kernel
  obtain ⟨engine, opened, -⟩ := openInner_new
  simp only [Exec.leaves, opened, decide_eq_true_eq] at refuted
  exact ⟨engine, engine.disk, opened, refuted⟩

end Squrust.Core
