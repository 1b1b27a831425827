import Squrust.Core.Storage.Transactions
import Squrust.Core.Storage.Crash

/-!
# Engines that share their files

Any number of engines are opened on the same files. Each keeps to itself where
the log ends, which pages are in it and how many pages there are; nothing tells
it what another one writes.

The committed state is that of the files at the start, with the pages of every
commit that returned (`SharedFiles.expect`). It is read back whenever the files
are opened again, as long as an engine writes to the files only while no other
one did since it was opened (`commits_survive`).
-/

set_option autoImplicit false

namespace Squrust.Core

open Squrust.Foundation

open StorageEngine (Shows Mirrors Sound visible Recovers)

/-- An engine at work on the shared files, with its transactions. -/
structure Instance where
  session : Session
  /-- Another one changed the files since this one was opened. -/
  behind : Bool

/-- The files, and the engines on them by their names. -/
structure SharedFiles where
  disk : Disk
  instances : Nat → Option Instance

/-- What happens on the shared files. -/
inductive FileEvent where
  | openOn (who : Nat)
  | close (who : Nat)
  | call (who : Nat) (call : EngineCall)

namespace Session

/-- The session on the files as they are now. -/
def onFiles (session : Session) (disk : Disk) : Session :=
  { session with engine := { session.engine with disk } }

/-- The call writes to the files. -/
def writesFiles (session : Session) : EngineCall → Bool
  | .commit _ => session.writer.any fun tx => !tx.pending.isEmpty
  | .checkpoint =>
      !session.engine.wal.index.isEmpty &&
        session.engine.mvcc.currentVersion ≤ session.engine.mvcc.oldestRequiredVersion
  | _ => false

end Session

/-- A state with the pages of a transaction. -/
def WriteTx.over (tx : WriteTx) (contents : Contents) : Contents := fun id =>
  match tx.pending.get? id with
  | some page => some page.data
  | none => contents id

/-- The committed state after a call: a commit that returned adds its pages. -/
def Session.expect (session : Session) (contents : Contents) (call : EngineCall) : Contents :=
  match call, (session.step call).2, session.writer with
  | .commit _, .done, some tx => tx.over contents
  | _, _, _ => contents

namespace SharedFiles

/-- Nobody has the files open. -/
def start (disk : Disk) : SharedFiles := ⟨disk, fun _ => none⟩

/-- The files after someone worked on them. -/
def putFiles (shared : SharedFiles) (disk : Disk) : SharedFiles where
  disk := disk
  instances other := (shared.instances other).map fun inst =>
    { inst with behind := inst.behind || disk ≠ shared.disk }

/-- The engine of a name. -/
def putInstance (shared : SharedFiles) (who : Nat) (inst : Option Instance) : SharedFiles :=
  { shared with instances := Function.update shared.instances who inst }

/-- One event. -/
def step (shared : SharedFiles) : FileEvent → SharedFiles
  | .openOn who =>
      match shared.instances who, StorageEngine.openInner shared.disk with
      | none, .ok engine disk =>
          (shared.putFiles disk).putInstance who (some ⟨Session.start engine, false⟩)
      | none, .error _ disk => shared.putFiles disk
      | some _, _ => shared
  | .close who => shared.putInstance who none
  | .call who call =>
      match shared.instances who with
      | some inst =>
          let after := ((inst.session.onFiles shared.disk).step call).1
          (shared.putFiles after.engine.disk).putInstance who (some ⟨after, inst.behind⟩)
      | none => shared

/-- A sequence of events. -/
def run (shared : SharedFiles) (events : List FileEvent) : SharedFiles := events.foldl step shared

/-- The committed state after an event. -/
def expect (shared : SharedFiles) (contents : Contents) : FileEvent → Contents
  | .call who call =>
      match shared.instances who with
      | some inst => (inst.session.onFiles shared.disk).expect contents call
      | none => contents
  | _ => contents

/-- The committed state after a sequence of events. -/
def expected (shared : SharedFiles) (contents : Contents) : List FileEvent → Contents
  | [] => contents
  | event :: events => (shared.step event).expected (shared.expect contents event) events

/-- Who writes to the files is not behind. -/
def current (shared : SharedFiles) : FileEvent → Bool
  | .call who call =>
      (shared.instances who).all fun inst => !(inst.behind && inst.session.writesFiles call)
  | _ => true

/-- At every event. -/
def alwaysCurrent (shared : SharedFiles) : List FileEvent → Bool
  | [] => true
  | event :: events => shared.current event && (shared.step event).alwaysCurrent events

end SharedFiles

/-! ## Calls that write nothing -/

/-- What outlives the transactions of an engine: the files, the log, the allocated and the free
pages. -/
def StorageEngine.stored (engine : StorageEngine) : Disk × WalInner × UInt32 × List PageId :=
  (engine.disk, engine.wal, engine.pageCount, engine.freelist)

theorem SameData.stored {first second : StorageEngine} (same : SameData first second) :
    second.stored = first.stored := by
  rw [same]
  rfl

namespace Session

variable {session : Session}

theorem writesFiles_onFiles {disk : Disk} (call : EngineCall) :
    (session.onFiles disk).writesFiles call = session.writesFiles call := by
  cases call <;> rfl

/-- A call on the writer leaves the files if its code does. -/
theorem disk_onWriter {α : Type} {code : Exec Writing StorageError α} {reply : α → EngineReply}
    (leaves : ∀ tx, session.writer = some tx →
      (Exec.reached code ⟨session.engine, tx⟩).engine.disk = session.engine.disk) :
    (session.onWriter code reply).1.engine.disk = session.engine.disk := by
  cases openTx : session.writer with
  | none => rw [onWriter_of_none openTx]
  | some tx =>
      have left := leaves tx openTx
      unfold Exec.reached at left
      cases ran : code ⟨session.engine, tx⟩ with
      | ok value writing =>
          rw [ran] at left
          rw [onWriter_of_ok openTx ran]
          exact left
      | error fault writing =>
          rw [ran] at left
          rw [onWriter_of_error openTx ran]
          exact left

/-- Only commits and checkpoints store anything. -/
theorem stored_step {call : EngineCall} (noCommit : ∀ order, call ≠ .commit order)
    (noCheckpoint : call ≠ .checkpoint) :
    (session.step call).1.engine.stored = session.engine.stored := by
  cases call with
  | commit order => exact absurd rfl (noCommit order)
  | checkpoint => exact absurd rfl noCheckpoint
  | beginRead reader =>
      cases pinned : session.snapshot reader with
      | none =>
          simp only [step, pinned]
          rfl
      | some snapshot => simp only [step, pinned]
  | readPage reader id =>
      cases pinned : session.snapshot reader with
      | none => simp only [step, pinned]
      | some snapshot =>
          have left := StorageEngine.sameData_readPageAt id snapshot session.engine
          unfold Exec.reached at left
          simp only [step, pinned]
          cases ran : StorageEngine.readPageAt id snapshot session.engine with
          | ok page engine =>
              rw [ran] at left
              exact left.stored
          | error fault engine =>
              rw [ran] at left
              exact left.stored
  | dropRead reader =>
      cases pinned : session.snapshot reader with
      | none => simp only [step, pinned]
      | some snapshot =>
          simp only [step, pinned]
          rfl
  | beginWrite =>
      cases openTx : session.writer with
      | some tx => simp only [step, openTx]
      | none =>
          simp only [step, openTx, StorageEngine.beginWrite]
          cases session.engine.gate with
          | true => rfl
          | false => rfl
  | getPage id => exact (@beside_ofDraft session (.getPage id) trivial).engines.stored
  | writePage page => exact (@beside_ofDraft session (.writePage page) trivial).engines.stored
  | allocPage => exact (@beside_ofDraft session .allocPage trivial).engines.stored
  | freePage id => exact (@beside_ofDraft session (.freePage id) trivial).engines.stored
  | rollback => exact (onWriter_rollback _).1.engines.stored
  | dropWrite => exact (onWriter_rollback _).1.engines.stored

theorem disk_finish (writing : Writing) : (WriteTx.finish writing).engine.disk = writing.engine.disk := by
  unfold WriteTx.finish
  split <;> rfl

/-- A commit without pages. -/
theorem disk_commit_of_isEmpty {engine : StorageEngine} {tx : WriteTx} (order : List PageId)
    (empty : tx.pending.isEmpty = true) :
    (Exec.reached (WriteTx.commit order) ⟨engine, tx⟩).engine.disk = engine.disk := by
  rcases engine.mvcc.reserveCommitVersion_cases with ⟨version, reserved, -⟩ | none
  · have appended : WriteTx.appendPending order ⟨engine, tx⟩ = .ok version ⟨engine, tx⟩ := by
      rw [WriteTx.appendPending]
      refine (Exec.bind_of_ok rfl).trans ?_
      simp only [reserved]
      refine (Exec.bind_of_ok rfl).trans ?_
      simp only [empty]
      rfl
    have committed : WriteTx.commit order ⟨engine, tx⟩ = .ok ()
        (WriteTx.finish ⟨{ engine with
          mvcc := engine.mvcc.publishCommit version
          pageCount := tx.localPageCount
          freelist := tx.localFreelist }, tx⟩) := Exec.bind_of_ok appended
    rw [Exec.reached_of_ok committed]
    exact disk_finish _
  · have failed : WriteTx.commit order ⟨engine, tx⟩ =
        .error (.panic "attempt to add with overflow") ⟨engine, tx⟩ :=
      Exec.bind_of_error (WriteTx.appendPending_spent order none)
    rw [Exec.reached_of_error failed]

/-- A call that does not write to the files leaves them as they are. -/
theorem disk_step_of_not_writes {call : EngineCall} (quiet : session.writesFiles call = false) :
    (session.step call).1.engine.disk = session.engine.disk := by
  cases call with
  | commit order =>
      refine disk_onWriter fun tx openTx => disk_commit_of_isEmpty order ?_
      simpa [writesFiles, openTx] using quiet
  | checkpoint =>
      have same : StorageEngine.checkpoint session.engine = .ok () session.engine := by
        rw [StorageEngine.checkpoint_eq]
        split
        · rfl
        · next ahead =>
          refine StorageEngine.foldLog_of_isEmpty ?_
          simp only [writesFiles, Bool.and_eq_false_iff, Bool.not_eq_false', decide_eq_false_iff_not]
            at quiet
          exact quiet.resolve_right fun lagging => lagging (not_lt.mp ahead)
      simp only [step, same]
  | _ =>
      refine congrArg Prod.fst (stored_step (fun order same => ?_) fun same => ?_)
      · cases same
      · cases same

/-- And the committed state. -/
theorem expect_of_not_writes {call : EngineCall} {contents : Contents}
    (quiet : session.writesFiles call = false) : session.expect contents call = contents := by
  cases call with
  | commit order =>
      unfold expect
      cases openTx : session.writer with
      | none => cases (session.step (.commit order)).2 <;> rfl
      | some tx =>
          have empty : tx.pending.isEmpty = true := by simpa [writesFiles, openTx] using quiet
          have same : tx.over contents = contents := by
            funext id
            rw [WriteTx.over, FiniteMap.eq_empty_of_isEmpty empty]
            rfl
          cases (session.step (.commit order)).2 with
          | done => exact same
          | _ => rfl
  | _ => rfl

end Session

/-! ## What is read back -/

namespace StorageEngine

variable {engine opened : StorageEngine} {versions : List TransactionId} {contents : Contents}
  {disk after : Disk}

/-- An engine that was just opened has the files as opening left them. -/
theorem disk_of_openInner (ran : openInner disk = .ok opened after) : opened.disk = after := by
  rw [openInner, Exec.bind_eq_ok] at ran
  obtain ⟨header, first, -, ran⟩ := ran
  rw [Exec.bind_eq_ok] at ran
  obtain ⟨inner, second, -, ran⟩ := ran
  rw [Exec.bind_eq_ok] at ran
  obtain ⟨physical, third, -, ran⟩ := ran
  rw [Exec.bind_eq_ok] at ran
  obtain ⟨disk', fourth, got, ran⟩ := ran
  cases got
  obtain ⟨rfl, rfl⟩ := EStateM.Result.ok.inj ran
  rfl

/-- A committed state that shows a state is read back with it. -/
theorem Sound.recovers_of_shows (sound : engine.Sound versions)
    (shows_ : Shows engine engine.mvcc.committed contents) : Recovers engine.disk contents := by
  obtain ⟨opened, after, ran, reads⟩ := sound.recovers
  refine ⟨opened, after, ran, fun id data known => ?_⟩
  obtain ⟨found, sees, same⟩ := shows_ id data known
  obtain ⟨page, later, returned, named, same'⟩ := reads id found sees
  exact ⟨page, later, returned, named, same'.trans same⟩

/-- Who reads every page of a state shows it. -/
theorem Sound.shows_of_reads (sound : opened.Sound versions)
    (reads : ∀ id data, contents id = some data →
      ∃ page later, readPageAt id opened.mvcc.currentVersion opened = .ok page later ∧
        page.id = id ∧ body id page.data = body id data) :
    Shows opened opened.mvcc.committed contents := by
  intro id data known
  obtain ⟨page, later, returned, -, same⟩ := reads id data known
  unfold MvccManager.currentVersion at returned
  cases sees : visible opened.wal.index opened.disk.main opened.mvcc.committed id with
  | none =>
      rw [readPageAt_missing sound.mirrors sees] at returned
      cases returned
  | some found =>
      obtain ⟨page', cache, returned', -, same', -⟩ := readPageAt_visible sound.mirrors sees
      rw [returned'] at returned
      obtain ⟨rfl, -⟩ := EStateM.Result.ok.inj returned
      exact ⟨found, rfl, same'.symm.trans same⟩

/-- An engine in order shows what its files have. -/
theorem Sound.shows_of_recovers (sound : engine.Sound versions)
    (recovers : Recovers engine.disk contents) : Shows engine engine.mvcc.committed contents := by
  obtain ⟨opened, after, ran, reads⟩ := recovers
  obtain ⟨first, here, valid⟩ := sound.header
  obtain ⟨header, fileOpened⟩ := openFile_of_valid here valid
  obtain ⟨opened', ran', sound', main, indices⟩ :=
    @openInner_of_openFile engine.disk header engine.disk.main sound.unbounded fileOpened
      ⟨first, here, valid⟩
  obtain ⟨rfl, -⟩ := EStateM.Result.ok.inj (ran.symm.trans ran')
  have index := indices _ sound.replays
  have upTo := sound'.upTo
  have shown := sound'.shows_of_reads reads
  rw [index] at upTo
  intro id data known
  obtain ⟨found, sees, same⟩ := shown id data known
  refine ⟨found, ?_, same⟩
  rw [index, main] at sees
  rw [visible_of_upTo sound.upTo upTo]
  exact sees

end StorageEngine

/-! ## One call of an engine that is not behind -/

/-- The store with another committed state. -/
def Store.rebase (store : Store) (contents : Contents) : Store :=
  { store with
    committed := contents
    writer := store.writer.map fun draft => { draft with base := contents } }

namespace Simulates

variable {session : Session} {store : Store} {contents : Contents}

theorem rebase (simulates : Simulates session store)
    (shows_ : Shows session.engine session.engine.mvcc.committed contents) :
    Simulates session (store.rebase contents) := by
  refine ⟨simulates.sound, shows_, simulates.readers, simulates.gate, ?_⟩
  unfold Store.rebase
  cases openTx : session.writer with
  | none =>
      rw [simulates.noDraft openTx]
      trivial
  | some tx =>
      obtain ⟨draft, state, drafts⟩ := simulates.exists_draft openTx
      rw [state]
      exact ⟨drafts.current, drafts.unfinished, drafts.sized, shows_, drafts.own⟩

/-- The committed state after a call is the expected one. -/
theorem committed_step (simulates : Simulates session store) (call : EngineCall) :
    ((store.rebase contents).step call (session.step call).2).committed =
      session.expect contents call := by
  cases call with
  | commit order =>
      have isStep : session.step (.commit order) =
          session.onWriter (WriteTx.commit order) fun _ => .done := rfl
      unfold Session.expect
      rw [isStep]
      cases openTx : session.writer with
      | none =>
          rw [Session.onWriter_of_none openTx]
          rfl
      | some tx =>
          obtain ⟨draft, state, drafts⟩ := simulates.exists_draft openTx
          cases ran : WriteTx.commit order ⟨session.engine, tx⟩ with
          | error fault writing =>
              rw [Session.onWriter_of_error openTx ran]
              rfl
          | ok value writing =>
              rw [Session.onWriter_of_ok openTx ran]
              funext id
              have ownId := drafts.own id
              simp only [Store.step, Store.update, Store.rebase, state, Option.map_some,
                Option.getD_some, Draft.contents, WriteTx.over, ownId]
              cases draft.own id with
              | written data => rfl
              | untouched => rfl
              | freed => rfl
  | _ =>
      unfold Session.expect
      generalize (session.step _).2 = reply
      cases reply <;> rfl

end Simulates

/-! ## Runs -/

/-- The state is read back from the files, and engines that are not behind are in order. -/
structure Keeps (shared : SharedFiles) (contents : Contents) : Prop where
  unbounded : shared.disk.left = none
  recovers : Recovers shared.disk contents
  upToDate : ∀ who inst, shared.instances who = some inst → inst.behind = false →
    ∃ store, Simulates (inst.session.onFiles shared.disk) store

namespace Keeps

variable {shared : SharedFiles} {contents contents' : Contents} {who : Nat}

/-- Engines that are not behind stay so when the files stay. -/
theorem of_putFiles (keeps : Keeps shared contents) {disk : Disk} {other : Nat} {inst : Instance}
    (here : (shared.putFiles disk).instances other = some inst) (upToDate : inst.behind = false) :
    ∃ store, Simulates (inst.session.onFiles disk) store := by
  obtain ⟨before, found, rfl⟩ := Option.map_eq_some_iff.mp here
  simp only [Bool.or_eq_false_iff, decide_eq_false_iff_not, not_not] at upToDate
  obtain ⟨fresh, rfl⟩ := upToDate
  exact keeps.upToDate other before found fresh

/-- An engine worked on the files and is in order on them, or is behind and left them alone. -/
theorem put (keeps : Keeps shared contents) {session : Session} {behind : Bool}
    (unbounded : session.engine.disk.left = none) (recovers : Recovers session.engine.disk contents')
    (inOrder : behind = false → ∃ store, Simulates session store) :
    Keeps ((shared.putFiles session.engine.disk).putInstance who (some ⟨session, behind⟩))
      contents' := by
  refine ⟨unbounded, recovers, fun other inst here upToDate => ?_⟩
  by_cases same : other = who
  · subst same
    simp only [SharedFiles.putInstance, Function.update_self, Option.some.injEq] at here
    subst here
    exact inOrder upToDate
  · simp only [SharedFiles.putInstance, Function.update_of_ne same] at here
    exact keeps.of_putFiles here upToDate

theorem step_open (keeps : Keeps shared contents) : Keeps (shared.step (.openOn who)) contents := by
  obtain ⟨engine, after, opened, reads⟩ := keeps.recovers
  cases found : shared.instances who with
  | some inst =>
      simp only [SharedFiles.step, found]
      exact keeps
  | none =>
      have sound := StorageEngine.openInner_sound keeps.unbounded opened
      have disk := StorageEngine.disk_of_openInner opened
      simp only [SharedFiles.step, found, opened]
      rw [← disk]
      exact @put shared contents contents who keeps (Session.start engine) false sound.unbounded
        (sound.recovers_of_shows (sound.shows_of_reads reads))
        fun _ => ⟨_, sound.simulates (StorageEngine.gate_of_openInner opened)⟩

theorem step_close (keeps : Keeps shared contents) : Keeps (shared.step (.close who)) contents := by
  refine ⟨keeps.unbounded, keeps.recovers, fun other inst here upToDate => ?_⟩
  simp only [SharedFiles.step, SharedFiles.putInstance, Function.update_apply] at here
  split at here
  · cases here
  · exact keeps.upToDate other inst here upToDate

theorem step_call (keeps : Keeps shared contents) {call : EngineCall}
    (current : shared.current (.call who call) = true) :
    Keeps (shared.step (.call who call)) (shared.expect contents (.call who call)) := by
  cases found : shared.instances who with
  | none =>
      simp only [SharedFiles.step, SharedFiles.expect, found]
      exact keeps
  | some inst =>
      simp only [SharedFiles.step, SharedFiles.expect, found]
      cases behind : inst.behind with
      | false =>
          obtain ⟨store, simulates⟩ := keeps.upToDate who inst found behind
          have shows_ := simulates.sound.shows_of_recovers keeps.recovers
          have after := ((simulates.rebase shows_).steps call).2
          have committed := after.committed
          rw [simulates.committed_step call] at committed
          exact keeps.put after.sound.unbounded (after.sound.recovers_of_shows committed)
            fun _ => ⟨_, after⟩
      | true =>
          have quiet : (inst.session.onFiles shared.disk).writesFiles call = false := by
            rw [Session.writesFiles_onFiles]
            simpa [SharedFiles.current, found, behind] using current
          have disk := Session.disk_step_of_not_writes quiet
          rw [Session.expect_of_not_writes quiet]
          refine keeps.put ?_ ?_ fun upToDate => Bool.noConfusion upToDate
          · rw [disk]
            exact keeps.unbounded
          · rw [disk]
            exact keeps.recovers

/-- **Step.** Whatever happens, as long as who writes is not behind. -/
theorem step (keeps : Keeps shared contents) (event : FileEvent)
    (current : shared.current event = true) :
    Keeps (shared.step event) (shared.expect contents event) := by
  cases event with
  | openOn who => exact keeps.step_open
  | close who => exact keeps.step_close
  | call who call => exact keeps.step_call current

/-- **Run.** -/
theorem run (keeps : Keeps shared contents) (events : List FileEvent)
    (current : shared.alwaysCurrent events = true) :
    Keeps (shared.run events) (shared.expected contents events) := by
  induction events generalizing shared contents with
  | nil => exact keeps
  | cons event rest ih =>
      rw [SharedFiles.alwaysCurrent, Bool.and_eq_true] at current
      exact ih (keeps.step event current.1) current.2

end Keeps

/-- **Shared files.** Any number of engines on the same files, with any interleaving of their
transactions and checkpoints: as long as none writes to the files after another one did since it
was opened, opening the files again gives the pages of every commit that returned. -/
theorem commits_survive {disk after : Disk} {engine : StorageEngine} (unbounded : disk.left = none)
    (opened : StorageEngine.openInner disk = .ok engine after) (events : List FileEvent)
    (current : (SharedFiles.start disk).alwaysCurrent events = true) :
    Recovers ((SharedFiles.start disk).run events).disk
      ((SharedFiles.start disk).expected engine.contents events) := by
  have sound := StorageEngine.openInner_sound unbounded opened
  have recovers : Recovers disk engine.contents := by
    refine ⟨engine, after, opened, fun id data known => ?_⟩
    obtain ⟨page, cache, returned, named, same, -⟩ :=
      StorageEngine.readPageAt_visible sound.mirrors known
    exact ⟨page, _, returned, named, same⟩
  have start : Keeps (SharedFiles.start disk) engine.contents :=
    ⟨unbounded, recovers, fun who inst here => by cases here⟩
  exact (start.run events current).recovers

/-- One engine commits, and then another one that is opened later. -/
def oneAfterTheOther : List FileEvent :=
  [.openOn 0, .call 0 .beginWrite, .call 0 .allocPage, .call 0 (.writePage ⟨2, PageData.zero⟩),
    .call 0 (.commit [2]), .openOn 1, .call 1 .beginWrite, .call 1 .allocPage,
    .call 1 (.writePage ⟨3, PageData.zero⟩), .call 1 (.commit [3])]

theorem commits_survive_new :
    ∃ engine after, StorageEngine.openInner ⟨[], [], none⟩ = .ok engine after ∧
      Recovers ((SharedFiles.start ⟨[], [], none⟩).run oneAfterTheOther).disk
        ((SharedFiles.start ⟨[], [], none⟩).expected engine.contents oneAfterTheOther) := by
  obtain ⟨engine, opened, -⟩ := openInner_new
  exact ⟨engine, engine.disk, opened, commits_survive rfl opened oneAfterTheOther (by decide +kernel)⟩

/-- Two engines are opened, one commits page 2, then the other page 1. -/
def oneBesideTheOther : List FileEvent :=
  [.openOn 0, .openOn 1, .call 0 .beginWrite, .call 0 .allocPage,
    .call 0 (.writePage ⟨2, PageData.zero⟩), .call 0 (.commit [2]), .call 1 .beginWrite,
    .call 1 (.writePage ⟨1, PageData.zero⟩), .call 1 (.commit [1])]

theorem Session.expect_eq_or (session : Session) (contents : Contents) (call : EngineCall) (id : PageId) :
    session.expect contents call id = (session.expect (fun _ => none) call id).or (contents id) := by
  cases call with
  | commit order =>
      unfold Session.expect
      generalize (session.step (.commit order)).2 = reply
      cases session.writer with
      | none => cases reply <;> rfl
      | some tx =>
          cases reply with
          | done =>
              simp only [WriteTx.over]
              cases tx.pending.get? id <;> rfl
          | _ => rfl
  | _ => rfl

/-- The pages of the commits of a run are expected whatever the state at the start was. -/
theorem SharedFiles.expected_eq_or (shared : SharedFiles) (contents : Contents)
    (events : List FileEvent) (id : PageId) :
    shared.expected contents events id = (shared.expected (fun _ => none) events id).or (contents id) := by
  have one : ∀ (contents : Contents) (shared : SharedFiles) (event : FileEvent),
      shared.expect contents event id = (shared.expect (fun _ => none) event id).or (contents id) := by
    intro contents shared event
    cases event with
    | openOn who => rfl
    | close who => rfl
    | call who call =>
        cases found : shared.instances who with
        | none =>
            simp only [expect, found]
            rfl
        | some inst =>
            simp only [expect, found]
            exact Session.expect_eq_or _ _ _ _
  induction events generalizing shared contents with
  | nil => rfl
  | cons event rest ih =>
      rw [expected, expected, ih, one, ih (shared.step event) (shared.expect (fun _ => none) event),
        Option.or_assoc]

/-- The second commit is written over the first, which is lost. -/
theorem commit_overwritten :
    ∃ engine after, StorageEngine.openInner ⟨[], [], none⟩ = .ok engine after ∧
      ¬ Recovers ((SharedFiles.start ⟨[], [], none⟩).run oneBesideTheOther).disk
        ((SharedFiles.start ⟨[], [], none⟩).expected engine.contents oneBesideTheOther) := by
  have lost : Exec.leaves StorageEngine.openInner
      ((SharedFiles.start ⟨[], [], none⟩).run oneBesideTheOther).disk
      (fun engine _ => !Exec.leaves (StorageEngine.readPageAt 2 engine.mvcc.currentVersion) engine
        (fun _ _ => true)) = true := by decide +kernel
  have written : ((SharedFiles.start ⟨[], [], none⟩).expected (fun _ => none) oneBesideTheOther 2).isSome =
      true := by decide +kernel
  obtain ⟨data, written⟩ := Option.isSome_iff_exists.mp written
  obtain ⟨engine, opened, -⟩ := openInner_new
  refine ⟨engine, engine.disk, opened, ?_⟩
  rintro ⟨reopened, after, ran, reads⟩
  have expected : (SharedFiles.start ⟨[], [], none⟩).expected engine.contents oneBesideTheOther 2 =
      some data := by
    rw [SharedFiles.expected_eq_or, written]
    rfl
  obtain ⟨page, later, returned, -⟩ := reads 2 data expected
  simp only [Exec.leaves, ran, returned] at lost
  exact Bool.noConfusion lost

end Squrust.Core
