import Squrust.Core.Storage.Transactions

/-!
# Commits, checkpoints and readers step by step

A commit appends its pages to the log and then publishes its version. A
checkpoint tests whether a reader lags behind and then folds the log. A reader
loads the committed version and then registers. The two halves of a call are
steps of their own here, and the steps of one writer, of readers and of
checkpoints come in any order (`Interleaved.step`).

Between the test and the fold of a checkpoint a commit may be appended and a
reader may load its version. In runs where no fold comes over unpublished pages
or a reader that a commit has overtaken (`Calm`), folds take only what all
readers have seen, and readers see the state that was committed when they loaded
their version (`Interleaved.pinned_of_calm`). In others they may not
(`Interleaved.reader_sees_unpublished`).
-/

set_option autoImplicit false

namespace Squrust.Core

open Squrust.Foundation

open StorageEngine (Shows Mirrors Replays)

/-- A reader that has loaded its version. -/
structure Reader where
  name : Nat
  version : TransactionId
  /-- The state that was committed then. No step depends on it. -/
  seen : Contents
  /-- Pages were appended that were not published then. No step depends on it. -/
  overtaken : Bool

/-- An engine with calls at work on it. -/
structure Interleaved where
  engine : StorageEngine
  /-- Readers between the two steps of `begin_read`. -/
  loaded : List Reader
  registered : List Reader
  writer : Option WriteTx
  /-- The version of the writer between the two steps of `commit`. -/
  appended : Option TransactionId
  /-- Number of checkpoints between their two steps. -/
  tested : Nat
  /-- The committed state. No step depends on it. -/
  committed : Contents

/-- A step of a reader, of the writer or of a checkpoint. -/
inductive Action where
  | loadVersion (reader : Nat)
  | register (reader : Nat)
  | readPage (reader : Nat) (id : PageId)
  | dropRead (reader : Nat)
  | beginWrite
  | getPage (id : PageId)
  | writePage (page : RawPage)
  | allocPage
  | freePage (id : PageId)
  | rollback
  | appendCommit (order : List PageId)
  | publishCommit
  | testReaders
  | foldLog

/-- The state a transaction leads to when it commits. -/
def WriteTx.contents (tx : WriteTx) (base : Contents) : Contents := fun id =>
  match tx.pending.get? id with
  | some page => some page.data
  | none => base id

namespace Interleaved

variable {α : Type}

/-- An engine nobody works on. -/
def start (engine : StorageEngine) : Interleaved :=
  ⟨engine, [], [], none, none, 0, engine.contents⟩

/-- The readers that have a version. -/
def readers (state : Interleaved) : List Reader := state.loaded ++ state.registered

/-- There are pages in the log whose version is not published. -/
def unpublished (state : Interleaved) : Bool :=
  match state.writer, state.appended with
  | some tx, some _ => !tx.pending.isEmpty
  | _, _ => false

/-- The writer at work, before it commits. -/
def onWriter (state : Interleaved) (code : Exec Writing StorageError α) : Interleaved :=
  match state.writer, state.appended with
  | some tx, none =>
      let writing := Exec.reached code ⟨state.engine, tx⟩
      { state with engine := writing.engine, writer := some writing.tx }
  | _, _ => state

/-- Pages are appended to the log; a commit without pages overtakes nobody. -/
def overtake (tx : WriteTx) (reader : Reader) : Reader :=
  { reader with overtaken := reader.overtaken || !tx.pending.isEmpty }

/-- One step. A step of a call that is not there changes nothing. -/
def step (state : Interleaved) : Action → Interleaved
  | .loadVersion name =>
      { state with loaded := ⟨name, state.engine.mvcc.currentVersion, state.committed,
          state.unpublished⟩ :: state.loaded }
  | .register name =>
      match state.loaded.find? fun reader => reader.name = name with
      | none => state
      | some reader =>
          { state with
            engine := { state.engine with mvcc := state.engine.mvcc.register reader.version }
            loaded := state.loaded.eraseP fun reader => reader.name = name
            registered := reader :: state.registered }
  | .readPage name id =>
      match state.registered.find? fun reader => reader.name = name with
      | none => state
      | some reader =>
          { state with
            engine := Exec.reached (StorageEngine.readPageAt id reader.version) state.engine }
  | .dropRead name =>
      match state.registered.find? fun reader => reader.name = name with
      | none => state
      | some reader =>
          { state with
            engine := state.engine.dropRead reader.version
            registered := state.registered.eraseP fun reader => reader.name = name }
  | .beginWrite =>
      match state.writer, StorageEngine.beginWrite state.engine with
      | none, .ok tx engine => { state with engine, writer := some tx }
      | _, _ => state
  | .getPage id => state.onWriter (WriteTx.getPage id)
  | .writePage page => state.onWriter (WriteTx.writePage page)
  | .allocPage => state.onWriter WriteTx.allocPage
  | .freePage id => state.onWriter (WriteTx.freePage id)
  | .rollback =>
      match state.writer, state.appended with
      | some tx, none =>
          { state with engine := (WriteTx.finish ⟨state.engine, tx⟩).engine, writer := none }
      | _, _ => state
  | .appendCommit order =>
      match state.writer, state.appended with
      | some tx, none =>
          match WriteTx.appendPending order ⟨state.engine, tx⟩ with
          | .ok version writing =>
              { state with
                engine := writing.engine
                appended := some version
                loaded := state.loaded.map (overtake tx)
                registered := state.registered.map (overtake tx) }
          | .error _ writing => { state with engine := writing.engine }
      | _, _ => state
  | .publishCommit =>
      match state.writer, state.appended with
      | some tx, some version =>
          { state with
            engine := (Exec.reached (WriteTx.publish version) ⟨state.engine, tx⟩).engine
            writer := none
            appended := none
            committed := tx.contents state.committed }
      | _, _ => state
  | .testReaders =>
      if state.engine.mvcc.oldestRequiredVersion < state.engine.mvcc.currentVersion then state
      else { state with tested := state.tested + 1 }
  | .foldLog =>
      match state.tested with
      | 0 => state
      | tested + 1 =>
          { state with engine := Exec.reached StorageEngine.foldLog state.engine, tested }

/-- Steps one after the other. -/
def run (state : Interleaved) (actions : List Action) : Interleaved := actions.foldl step state

/-! ## What a fold may meet -/

/-- No version in the log is newer than that of a reader. -/
def SeenByAll (state : Interleaved) : Prop :=
  ∀ reader ∈ state.readers, state.engine.wal.index.UpTo reader.version

/-- No pages are appended and not published, and no reader is overtaken by a commit. -/
def Calm (state : Interleaved) : Prop :=
  state.unpublished = false ∧ ∀ reader ∈ state.readers, reader.overtaken = false

/-- Every fold of a run starts in such a state. -/
def AtFolds (Holds : Interleaved → Prop) (state : Interleaved) : List Action → Prop
  | [] => True
  | action :: rest =>
      (action = .foldLog → state.tested ≠ 0 → Holds state) ∧ AtFolds Holds (state.step action) rest

/-- Every registered reader reads each page of the state that was committed when it loaded its
version. -/
def Pinned (state : Interleaved) : Prop :=
  ∀ reader ∈ state.registered, ∀ id data, reader.seen id = some data →
    ∃ page after, StorageEngine.readPageAt id reader.version state.engine = .ok page after ∧
      page.id = id ∧ body id page.data = body id data

/-! ## The invariant -/

/-- A reader sees its state, and if it is not overtaken, it sees all there is in the log. -/
structure Sees (engine : StorageEngine) (reader : Reader) : Prop where
  old : reader.version ≤ engine.mvcc.committed
  shows_ : Shows engine reader.version reader.seen
  upTo : reader.overtaken = false → engine.wal.index.UpTo reader.version

/-- The writer's version is the next one, and it shows the state the transaction leads to. -/
structure Commits (engine : StorageEngine) (tx : WriteTx) (version : TransactionId)
    (committed : Contents) : Prop where
  newer : engine.mvcc.committed < version
  upTo : engine.wal.index.UpTo version
  upToCommitted : tx.pending.isEmpty = true → engine.wal.index.UpTo engine.mvcc.committed
  shows_ : Shows engine version (tx.contents committed)

/-- A transaction that can commit. -/
structure Drafting (tx : WriteTx) : Prop where
  unfinished : tx.finished = false
  sized : tx.localPageCount ≠ 0
  keyed : WriteTx.Keyed tx.pending

/-- The files and the cache are in order. -/
structure Stored (engine : StorageEngine) : Prop where
  unbounded : engine.disk.left = none
  mirrors : Mirrors engine.cache engine.disk.main
  offset : engine.wal.writeOffset = engine.disk.log.length
  replays : Replays engine.disk.log engine.wal.index
  pages : engine.pageCount ≠ 0

/-- What the writer has done so far. -/
def WriterIn (engine : StorageEngine) (committed : Contents) :
    Option WriteTx → Option TransactionId → Prop
  | some tx, some version => Drafting tx ∧ Commits engine tx version committed
  | some tx, none => Drafting tx ∧ engine.wal.index.UpTo engine.mvcc.committed
  | none, none => engine.wal.index.UpTo engine.mvcc.committed
  | none, some _ => False

structure Orderly (state : Interleaved) : Prop where
  stored : Stored state.engine
  committed : Shows state.engine state.engine.mvcc.committed state.committed
  writer : WriterIn state.engine state.committed state.writer state.appended
  readers : ∀ reader ∈ state.readers, Sees state.engine reader

variable {state : Interleaved}

/-- Without unpublished pages the committed version is the newest in the log. -/
theorem Orderly.upTo (orderly : state.Orderly) (published : state.unpublished = false) :
    state.engine.wal.index.UpTo state.engine.mvcc.committed := by
  have writer := orderly.writer
  unfold unpublished at published
  cases openTx : state.writer with
  | none =>
      cases between : state.appended with
      | none =>
          rw [openTx, between] at writer
          exact writer
      | some version =>
          rw [openTx, between] at writer
          exact writer.elim
  | some tx =>
      cases between : state.appended with
      | none =>
          rw [openTx, between] at writer
          exact writer.2
      | some version =>
          rw [openTx, between] at writer published
          exact writer.2.upToCommitted (by simpa using published)

/-- Calm states have what folds need. -/
theorem Orderly.seenByAll (orderly : state.Orderly) (calm : state.Calm) : state.SeenByAll :=
  fun reader among => (orderly.readers reader among).upTo (calm.2 reader among)

theorem Orderly.pinned (orderly : state.Orderly) : state.Pinned := by
  intro reader among id data known
  have sees := orderly.readers reader (List.mem_append_right _ among)
  obtain ⟨found, visible, same⟩ := sees.shows_ id data known
  obtain ⟨page, cache, returned, named, same', -⟩ :=
    StorageEngine.readPageAt_visible orderly.stored.mirrors visible
  exact ⟨page, _, returned, named, same'.trans same⟩

/-! ## Steps -/

/-- Another engine with the same log, main file and committed version. -/
theorem Orderly.withEngine (orderly : state.Orderly) {engine : StorageEngine}
    {loaded registered : List Reader} (stored : Stored engine)
    (wal : engine.wal.index = state.engine.wal.index)
    (main : engine.disk.main = state.engine.disk.main)
    (committed : engine.mvcc.committed = state.engine.mvcc.committed)
    (readers : ∀ reader ∈ loaded ++ registered, Sees state.engine reader) :
    Orderly { state with engine, loaded, registered } := by
  have same : ∀ version contents, Shows state.engine version contents →
      Shows engine version contents := by
    intro version contents shows_ id data known
    rw [wal, main]
    exact shows_ id data known
  refine ⟨stored, ?_, ?_, fun reader among => ?_⟩
  · change Shows engine engine.mvcc.committed _
    rw [committed]
    exact same _ _ orderly.committed
  · have writer := orderly.writer
    change WriterIn engine state.committed state.writer state.appended
    cases openTx : state.writer with
    | none =>
        cases between : state.appended with
        | none =>
            rw [openTx, between] at writer
            simpa only [WriterIn, wal, committed] using writer
        | some version =>
            rw [openTx, between] at writer
            exact writer.elim
    | some tx =>
        cases between : state.appended with
        | none =>
            rw [openTx, between] at writer
            simpa only [WriterIn, wal, committed] using writer
        | some version =>
            rw [openTx, between] at writer
            obtain ⟨drafting, commits⟩ := writer
            refine ⟨drafting, ?_, ?_, ?_, same _ _ commits.shows_⟩
            · rw [committed]
              exact commits.newer
            · rw [wal]
              exact commits.upTo
            · rw [wal, committed]
              exact commits.upToCommitted
  · have sees := readers reader among
    refine ⟨?_, same _ _ sees.shows_, ?_⟩
    · change _ ≤ engine.mvcc.committed
      rw [committed]
      exact sees.old
    · change _ → engine.wal.index.UpTo _
      rw [wal]
      exact sees.upTo

theorem Orderly.loadVersion (orderly : state.Orderly) (name : Nat) :
    (state.step (.loadVersion name)).Orderly := by
  refine orderly.withEngine orderly.stored rfl rfl rfl fun reader among => ?_
  rcases List.mem_cons.mp among with rfl | among
  · exact ⟨le_rfl, orderly.committed, orderly.upTo⟩
  · exact orderly.readers reader among

theorem Orderly.register (orderly : state.Orderly) (name : Nat) :
    (state.step (.register name)).Orderly := by
  simp only [step]
  split
  · exact orderly
  · next reader found =>
    have stored : Stored { state.engine with mvcc := state.engine.mvcc.register reader.version } :=
      { orderly.stored with }
    refine orderly.withEngine stored rfl rfl rfl fun other among => ?_
    rcases List.mem_append.mp among with inLoaded | inRegistered
    · exact orderly.readers other (List.mem_append_left _ (List.mem_of_mem_eraseP inLoaded))
    · rcases List.mem_cons.mp inRegistered with rfl | inRegistered
      · exact orderly.readers other (List.mem_append_left _ (List.mem_of_find?_eq_some found))
      · exact orderly.readers other (List.mem_append_right _ inRegistered)

/-- A lookup changes nothing but the cache. -/
theorem Stored.reached_readPageAt {engine : StorageEngine} (stored : Stored engine) (id : PageId)
    (version : TransactionId) :
    ∃ cache, Exec.reached (StorageEngine.readPageAt id version) engine = { engine with cache } ∧
      Stored { engine with cache } := by
  cases sees : StorageEngine.visible engine.wal.index engine.disk.main version id with
  | some data =>
      obtain ⟨page, cache, returned, -, -, mirrors⟩ :=
        StorageEngine.readPageAt_visible stored.mirrors sees
      exact ⟨cache, Exec.reached_of_ok returned, { stored with mirrors }⟩
  | none =>
      exact ⟨engine.cache, Exec.reached_of_error (StorageEngine.readPageAt_missing stored.mirrors sees),
        stored⟩

theorem Orderly.readPage (orderly : state.Orderly) (name : Nat) (id : PageId) :
    (state.step (.readPage name id)).Orderly := by
  simp only [step]
  split
  · exact orderly
  · next reader found =>
    obtain ⟨cache, reached, stored⟩ := orderly.stored.reached_readPageAt id reader.version
    rw [reached]
    exact orderly.withEngine stored rfl rfl rfl orderly.readers

theorem Orderly.dropRead (orderly : state.Orderly) (name : Nat) :
    (state.step (.dropRead name)).Orderly := by
  simp only [step]
  split
  · exact orderly
  · next reader found =>
    refine orderly.withEngine { orderly.stored with } rfl rfl
      (MvccManager.committed_endRead _ _) fun other among => ?_
    rcases List.mem_append.mp among with inLoaded | inRegistered
    · exact orderly.readers other (List.mem_append_left _ inLoaded)
    · exact orderly.readers other (List.mem_append_right _ (List.mem_of_mem_eraseP inRegistered))

theorem Orderly.beginWrite (orderly : state.Orderly) : (state.step .beginWrite).Orderly := by
  have writer := orderly.writer
  simp only [step, StorageEngine.beginWrite]
  cases openTx : state.writer with
  | some tx => exact orderly
  | none =>
      by_cases gate : state.engine.gate = true
      · simp only [gate, if_true]
        exact orderly
      · simp only [Bool.eq_false_of_not_eq_true gate, Bool.false_eq_true, if_false]
        have stored : Stored { state.engine with gate := true } := { orderly.stored with }
        have moved := orderly.withEngine stored rfl rfl rfl orderly.readers
        refine ⟨stored, moved.committed, ?_, moved.readers⟩
        have drafting : Drafting ⟨state.engine.mvcc.currentVersion, FiniteMap.empty,
            state.engine.pageCount, state.engine.freelist, false⟩ :=
          ⟨rfl, orderly.stored.pages, fun id page own => by cases own⟩
        change WriterIn _ state.committed (some _) state.appended
        cases between : state.appended with
        | none =>
            rw [openTx, between] at writer
            exact ⟨drafting, writer⟩
        | some version =>
            rw [openTx, between] at writer
            exact writer.elim

/-- The writer before it commits: nothing but its own pages and the cache changes. -/
theorem Orderly.onWriter (orderly : state.Orderly) {α : Type} {code : Exec Writing StorageError α}
    (effect : ∀ tx, Drafting tx → ∃ cache tx', Exec.reached code ⟨state.engine, tx⟩ =
      ⟨{ state.engine with cache }, tx'⟩ ∧ Stored { state.engine with cache } ∧ Drafting tx') :
    (state.onWriter code).Orderly := by
  have writer := orderly.writer
  unfold Interleaved.onWriter
  cases openTx : state.writer with
  | none => exact orderly
  | some tx =>
      cases between : state.appended with
      | some version => exact orderly
      | none =>
          rw [openTx, between] at writer
          obtain ⟨drafting, upTo⟩ := writer
          obtain ⟨cache, tx', reached, stored, drafting'⟩ := effect tx drafting
          dsimp only
          rw [reached]
          have moved := orderly.withEngine stored rfl rfl rfl orderly.readers
          exact ⟨stored, moved.committed, ⟨drafting', upTo⟩, moved.readers⟩

theorem Orderly.getPage (orderly : state.Orderly) (id : PageId) :
    (state.step (.getPage id)).Orderly := by
  refine orderly.onWriter fun tx drafting => ?_
  cases own : tx.pending.get? id with
  | some page =>
      exact ⟨state.engine.cache, tx, Exec.reached_of_ok (WriteTx.getPage_of_some own), orderly.stored,
        drafting⟩
  | none =>
      have looksUp := @WriteTx.getPage_of_none state.engine tx id own
      obtain ⟨cache, reached, stored⟩ := orderly.stored.reached_readPageAt id tx.snapshot
      refine ⟨cache, tx, ?_, stored, drafting⟩
      cases read : StorageEngine.readPageAt id tx.snapshot state.engine with
      | ok page after =>
          rw [Exec.reached_of_ok read] at reached
          rw [Exec.reached_of_ok (looksUp.trans (WriteTx.onEngine_of_ok read)), reached]
      | error fault after =>
          rw [Exec.reached_of_error read] at reached
          rw [Exec.reached_of_error (looksUp.trans (WriteTx.onEngine_of_error read)), reached]

theorem Orderly.writePage (orderly : state.Orderly) (page : RawPage) :
    (state.step (.writePage page)).Orderly := by
  refine orderly.onWriter fun tx drafting => ⟨state.engine.cache,
    { tx with pending := tx.pending.insert page.id page }, rfl, orderly.stored,
    drafting.unfinished, drafting.sized, fun id found own => ?_⟩
  rw [FiniteMap.get?_insert] at own
  split at own
  · next same =>
    cases own
    exact same.symm
  · exact drafting.keyed id found own

theorem Orderly.freePage (orderly : state.Orderly) (id : PageId) :
    (state.step (.freePage id)).Orderly := by
  refine orderly.onWriter fun tx drafting => ⟨state.engine.cache,
    { tx with pending := tx.pending.erase id, localFreelist := id :: tx.localFreelist }, rfl,
    orderly.stored, drafting.unfinished, drafting.sized, fun other found own => ?_⟩
  rw [FiniteMap.get?_erase] at own
  split at own
  · cases own
  · exact drafting.keyed other found own

theorem Orderly.allocPage (orderly : state.Orderly) : (state.step .allocPage).Orderly := by
  refine orderly.onWriter fun tx drafting => ?_
  cases free : tx.localFreelist with
  | cons id rest =>
      refine ⟨state.engine.cache, { tx with localFreelist := rest }, ?_, orderly.stored,
        drafting.unfinished, drafting.sized, drafting.keyed⟩
      simp only [Exec.reached, WriteTx.allocPage, free]
  | nil =>
      by_cases room : tx.localPageCount.toNat + 1 < 2 ^ 32
      · refine ⟨state.engine.cache, { tx with localPageCount := tx.localPageCount + 1 }, ?_,
          orderly.stored, drafting.unfinished, ?_, drafting.keyed⟩
        · simp only [Exec.reached, WriteTx.allocPage, free, room, if_true]
        · intro zero
          have next := congrArg UInt32.toNat zero
          rw [UInt32.toNat_add] at next
          exact absurd ((Nat.mod_eq_of_lt room).symm.trans next) (Nat.succ_ne_zero _)
      · refine ⟨state.engine.cache, tx, ?_, orderly.stored, drafting⟩
        simp only [Exec.reached, WriteTx.allocPage, free, room, if_false]

theorem Orderly.rollback (orderly : state.Orderly) : (state.step .rollback).Orderly := by
  have writer := orderly.writer
  simp only [step]
  cases openTx : state.writer with
  | none => exact orderly
  | some tx =>
      cases between : state.appended with
      | some version => exact orderly
      | none =>
          rw [openTx, between] at writer
          obtain ⟨drafting, upTo⟩ := writer
          have finished : (WriteTx.finish ⟨state.engine, tx⟩).engine =
              { state.engine with gate := false } := by
            simp only [WriteTx.finish, drafting.unfinished, Bool.false_eq_true, if_false]
          dsimp only
          rw [finished]
          have stored : Stored { state.engine with gate := false } := { orderly.stored with }
          have moved := orderly.withEngine stored rfl rfl rfl orderly.readers
          exact ⟨stored, moved.committed, upTo, moved.readers⟩

/-- Pages are appended under the next version; readers that have a version see nothing of them. -/
theorem Orderly.appendCommit (orderly : state.Orderly) (order : List PageId) :
    (state.step (.appendCommit order)).Orderly := by
  have writer := orderly.writer
  simp only [step]
  cases openTx : state.writer with
  | none => exact orderly
  | some tx =>
      cases between : state.appended with
      | some version => exact orderly
      | none =>
          rw [openTx, between] at writer
          obtain ⟨drafting, upTo⟩ := writer
          rcases state.engine.mvcc.reserveCommitVersion_cases with ⟨version, reserved, newer⟩ | full
          · obtain ⟨after, appends, appended⟩ := WriteTx.appendPending_ok order
              orderly.stored.unbounded orderly.stored.mirrors orderly.stored.offset
              orderly.stored.replays drafting.sized reserved
            simp only [appends]
            have committed : after.mvcc.committed = state.engine.mvcc.committed :=
              congrArg MvccManager.committed appended.mvcc
            refine ⟨⟨appended.left.trans orderly.stored.unbounded, appended.mirrors,
              appended.offset, appended.replays, ?_⟩, ?_, ?_, fun reader among => ?_⟩
            · change after.pageCount ≠ 0
              rw [appended.pageCount]
              exact orderly.stored.pages
            · change Shows after after.mvcc.committed _
              rw [committed]
              exact orderly.committed.of_pushAll newer appended.main appended.index
            · refine ⟨drafting, ?_, ?_, fun none => ?_, ?_⟩
              · rw [committed]
                exact newer
              · rw [appended.index]
                exact (upTo.mono newer.le).pushAll
              · have noPages : WriteTx.values tx.pending order = [] := by
                  have same := WriteTx.values_perm tx.pending order
                  rw [FiniteMap.eq_empty_of_isEmpty none] at same ⊢
                  exact List.perm_nil.mp same
                rw [committed, appended.index, noPages]
                exact upTo
              · exact orderly.committed.pushAll upTo newer.le drafting.keyed appended.main
                  appended.index
            · obtain ⟨before, among', rfl⟩ : ∃ before ∈ state.readers, overtake tx before = reader := by
                rw [Interleaved.readers, ← List.map_append, List.mem_map] at among
                exact among
              have sees := orderly.readers before among'
              have old := sees.old
              refine ⟨?_, sees.shows_.of_pushAll (old.trans_lt newer) appended.main appended.index,
                fun kept => ?_⟩
              · change before.version ≤ after.mvcc.committed
                rw [committed]
                exact old
              · simp only [overtake, Bool.or_eq_false_iff, Bool.not_eq_eq_eq_not, Bool.not_false] at kept
                have noPages : WriteTx.values tx.pending order = [] := by
                  have same := WriteTx.values_perm tx.pending order
                  rw [FiniteMap.eq_empty_of_isEmpty kept.2] at same ⊢
                  exact List.perm_nil.mp same
                change after.wal.index.UpTo before.version
                rw [appended.index, noPages]
                exact sees.upTo kept.1
          · have failed : WriteTx.appendPending order ⟨state.engine, tx⟩ =
                .error (.panic "attempt to add with overflow") ⟨state.engine, tx⟩ := by
              rw [WriteTx.appendPending]
              refine (Exec.bind_of_ok rfl).trans ?_
              simp only [full]
              exact Exec.bind_of_error rfl
            simp only [failed]
            exact ⟨orderly.stored, orderly.committed, ⟨drafting, upTo⟩, orderly.readers⟩

theorem Orderly.publishCommit (orderly : state.Orderly) : (state.step .publishCommit).Orderly := by
  have writer := orderly.writer
  simp only [step]
  cases openTx : state.writer with
  | none => exact orderly
  | some tx =>
      cases between : state.appended with
      | none => exact orderly
      | some version =>
          rw [openTx, between] at writer
          obtain ⟨drafting, commits⟩ := writer
          dsimp only
          rw [Exec.reached_of_ok (WriteTx.publish_eq version drafting.unfinished)]
          have committed : (state.engine.mvcc.publishCommit version).committed = version := by
            rw [MvccManager.publishCommit, if_pos commits.newer]
          refine ⟨{ orderly.stored with pages := drafting.sized }, ?_, ?_, fun reader among => ?_⟩
          · change Shows _ (state.engine.mvcc.publishCommit version).committed _
            rw [committed]
            exact commits.shows_
          · change state.engine.wal.index.UpTo (state.engine.mvcc.publishCommit version).committed
            rw [committed]
            exact commits.upTo
          · have sees := orderly.readers reader among
            refine ⟨?_, sees.shows_, sees.upTo⟩
            change _ ≤ (state.engine.mvcc.publishCommit version).committed
            rw [committed]
            exact sees.old.trans commits.newer.le

/-- A fold in a calm state changes what nobody sees. -/
theorem Orderly.foldLog (orderly : state.Orderly) (calm : state.tested ≠ 0 → state.Calm) :
    (state.step .foldLog).Orderly := by
  have writer := orderly.writer
  simp only [step]
  cases tested : state.tested with
  | zero => exact orderly
  | succ rest =>
      have calm := calm (by rw [tested]; exact Nat.succ_ne_zero rest)
      dsimp only
      rcases StorageEngine.reached_foldLog orderly.stored.unbounded with stays | ⟨real, folds⟩
      · rw [stays]
        exact ⟨orderly.stored, orderly.committed, orderly.writer, orderly.readers⟩
      · rw [folds]
        have emptied : ∀ version, state.engine.folded.wal.index.UpTo version := by
          intro version id entry among
          cases among
        refine ⟨⟨rfl, StorageEngine.mirrors_folded orderly.stored.mirrors real, rfl,
          fun size => ⟨_, WriteAheadLog.settled_nil size, rfl⟩, orderly.stored.pages⟩,
          orderly.committed.folded (orderly.upTo calm.1) real, ?_, fun reader among => ?_⟩
        · change WriterIn state.engine.folded state.committed state.writer state.appended
          cases openTx : state.writer with
          | none =>
              cases between : state.appended with
              | none => exact emptied _
              | some version =>
                  rw [openTx, between] at writer
                  exact writer.elim
          | some tx =>
              cases between : state.appended with
              | none =>
                  rw [openTx, between] at writer
                  exact ⟨writer.1, emptied _⟩
              | some version =>
                  rw [openTx, between] at writer
                  obtain ⟨drafting, commits⟩ := writer
                  exact ⟨drafting, commits.newer, emptied _, fun _ => emptied _,
                    commits.shows_.folded commits.upTo real⟩
        · have sees := orderly.readers reader among
          exact ⟨sees.old, sees.shows_.folded (sees.upTo (calm.2 reader among)) real,
            fun _ => emptied _⟩

/-- **Step.** Every step keeps the order, a fold when it starts in a calm state. -/
theorem Orderly.step (orderly : state.Orderly) (action : Action)
    (calm : action = .foldLog → state.tested ≠ 0 → state.Calm) : (state.step action).Orderly := by
  cases action with
  | loadVersion name => exact orderly.loadVersion name
  | register name => exact orderly.register name
  | readPage name id => exact orderly.readPage name id
  | dropRead name => exact orderly.dropRead name
  | beginWrite => exact orderly.beginWrite
  | getPage id => exact orderly.getPage id
  | writePage page => exact orderly.writePage page
  | allocPage => exact orderly.allocPage
  | freePage id => exact orderly.freePage id
  | rollback => exact orderly.rollback
  | appendCommit order => exact orderly.appendCommit order
  | publishCommit => exact orderly.publishCommit
  | testReaders =>
      simp only [Interleaved.step]
      split
      · exact orderly
      · exact ⟨orderly.stored, orderly.committed, orderly.writer, orderly.readers⟩
  | foldLog => exact orderly.foldLog (calm rfl)

/-- **Run.** In a run whose folds start in calm states, folds take what all readers have seen, and
the order is kept. -/
theorem Orderly.run (orderly : state.Orderly) {actions : List Action}
    (calm : AtFolds Calm state actions) :
    AtFolds SeenByAll state actions ∧ (state.run actions).Orderly := by
  induction actions generalizing state with
  | nil => exact ⟨trivial, orderly⟩
  | cons action rest ih =>
      obtain ⟨folds, finally_⟩ := ih (orderly.step action calm.1) calm.2
      exact ⟨⟨fun isFold tested => orderly.seenByAll (calm.1 isFold tested), folds⟩, finally_⟩

theorem AtFolds.prefix_ {Holds : Interleaved → Prop} {before later : List Action}
    (atFolds : AtFolds Holds state (before ++ later)) : AtFolds Holds state before := by
  induction before generalizing state with
  | nil => trivial
  | cons action rest ih => exact ⟨atFolds.1, ih atFolds.2⟩

theorem AtFolds.last {Holds : Interleaved → Prop} {before : List Action}
    (atFolds : AtFolds Holds state (before ++ [.foldLog])) (tested : (state.run before).tested ≠ 0) :
    Holds (state.run before) := by
  induction before generalizing state with
  | nil => exact atFolds.1 rfl tested
  | cons action rest ih => exact ih atFolds.2 tested

theorem orderly_start {engine : StorageEngine} (sound : engine.Sound []) :
    (start engine).Orderly where
  stored := ⟨sound.unbounded, sound.mirrors, sound.offset, sound.replays, sound.pages⟩
  committed _ data known := ⟨data, known, rfl⟩
  writer := sound.upTo
  readers reader among := by cases among

/-- **Pinned readers.** On an opened database, in a run whose folds start in calm states, no fold
takes a version that is newer than that of a reader, and after every step every registered reader
reads the state that was committed when it loaded its version. -/
theorem pinned_of_calm {disk after : Disk} {engine : StorageEngine} (unbounded : disk.left = none)
    (opened : StorageEngine.openInner disk = .ok engine after) {actions : List Action}
    (calm : AtFolds Calm (start engine) actions) :
    AtFolds SeenByAll (start engine) actions ∧
      ∀ before later, actions = before ++ later → ((start engine).run before).Pinned := by
  have orderly := orderly_start (StorageEngine.openInner_sound unbounded opened)
  refine ⟨(orderly.run calm).1, ?_⟩
  rintro before later rfl
  exact (orderly.run calm.prefix_).2.pinned

/-- A fold of a new database, and a reader. -/
theorem pinned_of_calm_new :
    ∃ engine after, StorageEngine.openInner ⟨[], [], none⟩ = .ok engine after ∧
      AtFolds SeenByAll (start engine) [.testReaders, .foldLog, .loadVersion 0, .register 0] ∧
      ∀ before later, [.testReaders, .foldLog, .loadVersion 0, .register 0] = before ++ later →
        ((start engine).run before).Pinned := by
  obtain ⟨engine, opened, -⟩ := openInner_new
  refine ⟨engine, engine.disk, opened, pinned_of_calm rfl opened ?_⟩
  refine ⟨Action.noConfusion, fun _ _ => ?_, Action.noConfusion, Action.noConfusion, trivial⟩
  simp only [step]
  split
  · exact ⟨rfl, fun reader among => by cases among⟩
  · exact ⟨rfl, fun reader among => by cases among⟩

/-- Page 1 is appended, a checkpoint finds no reader, a reader loads the old version. -/
def raceToFold : List Action :=
  [.beginWrite, .writePage ⟨1, PageData.zero⟩, .appendCommit [1], .testReaders, .loadVersion 0,
    .register 0]

/-- A reader does not read the page of the state it was given. -/
def misreads (reader : Reader) (id : PageId) (engine : StorageEngine) : Bool :=
  match reader.seen id with
  | some data => Exec.leaves (StorageEngine.readPageAt id reader.version) engine
      fun page _ => body id page.data != body id data
  | none => false

theorem exists_of_misreads {reader : Reader} {id : PageId} {engine : StorageEngine}
    (differs : misreads reader id engine = true) :
    ∃ data page after, reader.seen id = some data ∧
      StorageEngine.readPageAt id reader.version engine = .ok page after ∧
      body id page.data ≠ body id data := by
  unfold misreads at differs
  split at differs
  · next data seen =>
    obtain ⟨page, after, returned, differs⟩ := Exec.exists_of_leaves differs
    exact ⟨data, page, after, seen, returned, bne_iff_ne.mp differs⟩
  · cases differs

/-- The fold of a race takes what one reader has not seen, and one reader reads it. -/
def lostRace (before : Interleaved) : Bool :=
  before.tested != 0 &&
    before.registered.any (fun reader =>
      (before.engine.wal.index.versions 1).any fun entry => reader.version < entry.1) &&
    (before.step .foldLog).registered.any fun reader => misreads reader 1 (before.step .foldLog).engine

/-- The fold takes the version of page 1 that is not published, and the reader reads it. -/
theorem reader_sees_unpublished :
    ∃ engine after, StorageEngine.openInner ⟨[], [], none⟩ = .ok engine after ∧
      ¬ AtFolds SeenByAll (start engine) (raceToFold ++ [.foldLog]) ∧
      ¬ ((start engine).run (raceToFold ++ [.foldLog])).Pinned := by
  have raced : Exec.leaves StorageEngine.openInner ⟨[], [], none⟩
      (fun engine _ => lostRace ((start engine).run raceToFold)) = true := by decide +kernel
  obtain ⟨engine, opened, -⟩ := openInner_new
  simp only [Exec.leaves, opened, lostRace, Bool.and_eq_true, bne_iff_ne, List.any_eq_true] at raced
  obtain ⟨⟨tested, reader, isRegistered, entry, among, newer⟩, reader', isRegistered', differs⟩ := raced
  refine ⟨engine, engine.disk, opened, ?_⟩
  have last : (start engine).run (raceToFold ++ [.foldLog]) =
      ((start engine).run raceToFold).step .foldLog := List.foldl_append
  rw [last]
  refine ⟨fun atFolds => ?_, fun pinned => ?_⟩
  · have isReader : reader ∈ ((start engine).run raceToFold).readers :=
      List.mem_append_right _ isRegistered
    have upTo := atFolds.last tested reader isReader 1 entry among
    exact absurd upTo (not_le.mpr (of_decide_eq_true newer))
  · obtain ⟨data, page, later, known, returned, differs⟩ := exists_of_misreads differs
    obtain ⟨page', later', returned', -, same⟩ := pinned reader' isRegistered' 1 data known
    obtain ⟨rfl, -⟩ := EStateM.Result.ok.inj (returned.symm.trans returned')
    exact differs same

end Interleaved

end Squrust.Core
