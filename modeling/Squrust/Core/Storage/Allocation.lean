import Squrust.Core.Storage.FileSize

/-!
# Allocated pages

Which pages are allocated is nowhere written down as a set: an engine counts
pages and keeps a list of free ones, a transaction works on copies of both, and
a commit that has pages to log logs the count with them. What this is for is
said by a ledger: the pages that committed transactions hold, and the pages the
open one holds (`Ledger`).

As long as a pool of counted and free pages fits what is held (`Fits`), what it
hands out is held by no one. Commits, failed or not, rollbacks and checkpoints
keep the pools of an engine and of its transaction fitting (`Kept.call`). To
open the files again the list of free pages is forgotten and the count is read
from the files; it still fits when the files record it and no failed append has
left a commit mark that can be read (`Kept.reopen`).
-/

set_option autoImplicit false

namespace Squrust.Core

open Squrust.Foundation

/-! ## Pools -/

/-- Pages that are counted or free fit the pages that are held. Page 1 is never held. -/
structure Fits (count : PageId) (free : List PageId) (held : List PageId) : Prop where
  positive : 1 ≤ count.toNat
  nodup : free.Nodup
  free_range : ∀ id ∈ free, 2 ≤ id.toNat ∧ id.toNat ≤ count.toNat
  unheld : ∀ id ∈ free, id ∉ held
  held_range : ∀ id ∈ held, 2 ≤ id.toNat ∧ id.toNat ≤ count.toNat

namespace Fits

variable {count count' id : PageId} {free held : List PageId}

theorem ne_one (big : 2 ≤ id.toNat) : id ≠ 1 := by
  rintro rfl
  exact absurd big (by decide)

/-- A page is taken from the free ones. -/
theorem reuse (fits : Fits count (id :: free) held) :
    (id ≠ 1 ∧ id ∉ held) ∧ Fits count free (id :: held) := by
  have range := fits.free_range id List.mem_cons_self
  obtain ⟨absent, nodup⟩ := List.nodup_cons.mp fits.nodup
  refine ⟨⟨ne_one range.1, fits.unheld id List.mem_cons_self⟩, fits.positive, nodup, ?_, ?_, ?_⟩
  · intro other among
    exact fits.free_range other (List.mem_cons_of_mem _ among)
  · intro other among isHeld
    rcases List.mem_cons.mp isHeld with rfl | before
    · exact absent among
    · exact fits.unheld other (List.mem_cons_of_mem _ among) before
  · intro other isHeld
    rcases List.mem_cons.mp isHeld with rfl | before
    · exact range
    · exact fits.held_range other before

/-- One more page is counted. -/
theorem grow (fits : Fits count [] held) (room : count.toNat + 1 < 2 ^ 32) :
    (count + 1 ≠ 1 ∧ count + 1 ∉ held) ∧ Fits (count + 1) [] ((count + 1) :: held) := by
  have next : (count + 1).toNat = count.toNat + 1 := by
    rw [UInt32.toNat_add]
    exact Nat.mod_eq_of_lt room
  have positive := fits.positive
  have range : 2 ≤ (count + 1).toNat ∧ (count + 1).toNat ≤ (count + 1).toNat :=
    ⟨by omega, le_rfl⟩
  refine ⟨⟨ne_one range.1, fun isHeld => ?_⟩, by omega, List.nodup_nil, nofun, nofun, ?_⟩
  · have below := (fits.held_range _ isHeld).2
    omega
  · intro other isHeld
    rcases List.mem_cons.mp isHeld with rfl | before
    · exact range
    · have inRange := fits.held_range other before
      exact ⟨inRange.1, by omega⟩

/-- A held page is freed. -/
theorem release (fits : Fits count free held) (isHeld : id ∈ held) :
    Fits count (id :: free) (held.filter (· ≠ id)) where
  positive := fits.positive
  nodup := List.nodup_cons.mpr ⟨fun among => fits.unheld id among isHeld, fits.nodup⟩
  free_range := by
    intro other among
    rcases List.mem_cons.mp among with rfl | before
    · exact fits.held_range other isHeld
    · exact fits.free_range other before
  unheld := by
    intro other among still
    obtain ⟨wasHeld, different⟩ := List.mem_filter.mp still
    rcases List.mem_cons.mp among with rfl | before
    · exact of_decide_eq_true different rfl
    · exact fits.unheld other before wasHeld
  held_range := fun other still => fits.held_range other (List.mem_of_mem_filter still)

/-- The free pages are forgotten, the count does not shrink. -/
theorem forget (fits : Fits count free held) (more : count ≤ count') : Fits count' [] held := by
  have more' := UInt32.le_iff_toNat_le.mp more
  refine ⟨fits.positive.trans more', List.nodup_nil, nofun, nofun, fun other isHeld => ?_⟩
  have range := fits.held_range other isHeld
  exact ⟨range.1, range.2.trans more'⟩

end Fits

/-! ## The ledger -/

/-- The pages committed transactions hold, and those the open transaction holds: the committed ones
and its own, without those it freed. -/
structure Ledger where
  live : List PageId
  held : Option (List PageId)

/-- What a call that returned does to the ledger. -/
def Ledger.step (ledger : Ledger) : EngineCall → EngineReply → Ledger
  | .beginWrite, .done => { ledger with held := some ledger.live }
  | .allocPage, .allocated id => { ledger with held := ledger.held.map (id :: ·) }
  | .freePage id, .done => { ledger with held := ledger.held.map (·.filter (· ≠ id)) }
  | .commit _, .done => ⟨ledger.held.getD ledger.live, none⟩
  | .rollback, .done => { ledger with held := none }
  | .dropWrite, .done => { ledger with held := none }
  | _, _ => ledger

/-- A database in use, and the ledger of its pages. -/
structure Life where
  session : Session
  ledger : Ledger

/-- A call of which only some changes of the files may succeed, or the files are closed and opened
again. -/
inductive LifeEvent where
  | call (left : Option Nat) (call : EngineCall)
  | reopen

/-- The page an event frees. -/
def LifeEvent.freed : LifeEvent → Option PageId
  | .call _ (.freePage id) => some id
  | _ => none

/-- The page a reply hands out. -/
def EngineReply.handedOut : EngineReply → Option PageId
  | .allocated id => some id
  | _ => none

namespace Life

/-- The ids from 2 to a count. -/
def counted (count : PageId) : List PageId := (List.range' 2 (count.toNat - 1)).map UInt32.ofNat

/-- A database that was just opened: all pages it counts may be allocated. -/
def start (engine : StorageEngine) : Life := ⟨Session.start engine, counted engine.pageCount, none⟩

/-- The session, with that many changes of the files to go. -/
def limit (session : Session) (left : Option Nat) : Session :=
  session.onFiles { session.engine.disk with left }

/-- One event; none when the files cannot be opened again. -/
def step (life : Life) : LifeEvent → Option (Life × EngineReply)
  | .call left call =>
      let after := (limit life.session left).step call
      some (⟨limit after.1 none, life.ledger.step call after.2⟩, after.2)
  | .reopen =>
      match StorageEngine.openInner life.session.engine.disk with
      | .ok engine _ => some (⟨Session.start engine, { life.ledger with held := none }⟩, .done)
      | .error _ _ => none

/-- Something holds of every step of a run. -/
def Along (Holds : Life → LifeEvent → EngineReply → Life → Prop) : Life → List LifeEvent → Prop
  | _, [] => True
  | life, event :: events =>
      match life.step event with
      | some (after, reply) => Holds life event reply after ∧ Along Holds after events
      | none => True

/-- A page that is freed is one the transaction holds. -/
def FreesHeld (life : Life) (event : LifeEvent) (_ : EngineReply) (_ : Life) : Prop :=
  ∀ id ∈ event.freed, ∀ held ∈ life.ledger.held, id ∈ held

end Life

namespace StorageEngine

/-- The page count that the files and the log record: in the header, with the last commit that
logged pages, and by the length of the main file. -/
def recordedPages (engine : StorageEngine) : PageId :=
  max (max (UInt32.ofNat (headerPages engine.disk.main)) engine.wal.dbSize)
    (UInt32.ofNat (physicalPages engine.disk.main))

/-- No frame that can be read behind the last commit of the log carries a commit mark. -/
def NoMarkBehind (engine : StorageEngine) : Prop :=
  ∀ whole rest frames, engine.disk.log.drop engine.wal.writeOffset = whole ++ rest →
    WriteAheadLog.Holds whole frames → ∀ frame ∈ frames, frame.isCommit = false

end StorageEngine

namespace Life

/-- When the files are opened again they record the page count, and the log ends with its last
commit but for frames without a mark. -/
def RecordsPages (life : Life) (event : LifeEvent) (_ : EngineReply) (_ : Life) : Prop :=
  event = .reopen → life.session.engine.pageCount ≤ life.session.engine.recordedPages ∧
    life.session.engine.NoMarkBehind

/-- A page that is handed out is not page 1, and no one holds it. -/
def HandsOutFree (life : Life) (reply : EngineReply) : Prop :=
  ∀ id ∈ reply.handedOut, ∃ held, life.ledger.held = some held ∧ id ≠ 1 ∧ id ∉ held

/-- No page is free twice, and free pages are counted. -/
def FreeListValid (count : PageId) (free : List PageId) : Prop :=
  free.Nodup ∧ ∀ id ∈ free, id ≤ count

/-- What allocation promises of one step: what it hands out, its lists of free pages, and that only
a commit that returns, and opening the files again, change those of the engine. -/
structure Allocates (life : Life) (event : LifeEvent) (reply : EngineReply) (after : Life) : Prop where
  handsOut : life.HandsOutFree reply
  engineList : FreeListValid after.session.engine.pageCount after.session.engine.freelist
  writerList : ∀ tx ∈ after.session.writer, FreeListValid tx.localPageCount tx.localFreelist
  unchanged : event ≠ .reopen → (∀ left order, event = .call left (.commit order) → reply ≠ .done) →
    after.session.engine.pageCount = life.session.engine.pageCount ∧
      after.session.engine.freelist = life.session.engine.freelist

end Life

/-! ## The log -/

namespace StorageEngine

/-- Up to its offset the log is whole commits, which end with the size in memory; without commits
the main file records that size. -/
def Logged (engine : StorageEngine) : Prop :=
  ∃ kept rest, engine.disk.log = kept ++ rest ∧ engine.wal.writeOffset = kept.length ∧
    (kept = [] ∧ engine.wal.index = FiniteMap.empty ∧
        engine.wal.dbSize ≤ max (UInt32.ofNat (headerPages engine.disk.main))
          (UInt32.ofNat (physicalPages engine.disk.main)) ∨
      ∃ inner, (∀ size, WriteAheadLog.Settled kept size inner) ∧ inner.dbSize = engine.wal.dbSize)

/-- What it says does not depend on the cache, the versions and the gate. -/
theorem Logged.of_stored {engine after : StorageEngine} (logged : engine.Logged)
    (main : after.disk.main = engine.disk.main) (log : after.disk.log = engine.disk.log)
    (wal : after.wal = engine.wal) : after.Logged := by
  unfold Logged at logged ⊢
  rw [main, log, wal]
  exact logged

end StorageEngine

namespace WriteTx

variable {engine : StorageEngine} {tx : WriteTx}

/-- The engine after a commit of pages. -/
theorem appendPending_logged (order : List PageId) (logged : engine.Logged)
    (sized : tx.localPageCount ≠ 0) :
    (∃ version after, appendPending order ⟨engine, tx⟩ = .ok version ⟨after, tx⟩ ∧ after.Logged ∧
        after.pageCount = engine.pageCount ∧ after.freelist = engine.freelist) ∨
      ∃ fault after, appendPending order ⟨engine, tx⟩ = .error fault ⟨after, tx⟩ ∧ after.Logged ∧
        after.pageCount = engine.pageCount ∧ after.freelist = engine.freelist := by
  rcases engine.mvcc.reserveCommitVersion_cases with ⟨version, reserved, -⟩ | none
  · have begun := @appendPending_eq engine tx order version reserved
    cases empty : tx.pending.isEmpty with
    | true =>
        rw [empty] at begun
        exact Or.inl ⟨version, engine, begun, logged, rfl, rfl⟩
    | false =>
        have nonempty := @frames_ne_nil tx order version engine.wal.salt empty
        rw [empty] at begun
        obtain ⟨kept, rest, split, offset, recorded⟩ := logged
        obtain ⟨⟨main, log, left⟩, wal, cache, mvcc, gate, pageCount, freelist⟩ := engine
        simp only at split offset recorded nonempty begun
        subst split
        by_cases enough : ∀ budget ∈ left, (values tx.pending order).length < budget
        · -- All frames and the sync get through.
          have done := @WriteAheadLog.appendCommit_done _ kept rest main left version
            tx.localPageCount wal nonempty (by rwa [List.length_map]) offset
          refine Or.inl ⟨version, _, begun.trans ((Exec.bind_of_ok rfl).trans
            (Exec.bind_of_ok (onEngine_of_ok (StorageEngine.onLog_of_ok done)))), ?_, rfl, rfl⟩
          refine ⟨kept ++ WriteAheadLog.encodeAll (WriteAheadLog.stamp version tx.localPageCount _), _,
            (List.append_assoc _ _ _).symm, ?_, Or.inr ?_⟩
          · rw [List.length_append, WriteAheadLog.length_encodeAll, WriteAheadLog.length_stamp]
          · rcases recorded with ⟨rfl, -, -⟩ | ⟨inner, settled, -⟩
            · exact ⟨_, WriteAheadLog.settled_stamp nonempty sized, rfl⟩
            · exact ⟨_, fun size => (settled size).append nonempty sized, rfl⟩
        · push Not at enough
          obtain ⟨budget, among, few⟩ := enough
          cases among
          have failed := @WriteAheadLog.appendCommit_failed _ kept rest main version
            tx.localPageCount wal budget nonempty (by rwa [List.length_map]) offset
          refine Or.inr ⟨_, _, begun.trans ((Exec.bind_of_ok rfl).trans (Exec.bind_of_error
            (onEngine_of_error (StorageEngine.onLog_of_error failed)))), ?_, rfl, rfl⟩
          exact ⟨kept, _, rfl, offset, recorded⟩
  · exact Or.inr ⟨_, engine, appendPending_spent order none, logged, rfl, rfl⟩

/-- A commit that returns takes over the pool of the transaction; one that fails leaves that of the
engine. -/
theorem commit_logged (order : List PageId) (logged : engine.Logged)
    (unfinished : tx.finished = false) (sized : tx.localPageCount ≠ 0) :
    (∃ after, commit order ⟨engine, tx⟩ = .ok () ⟨after, { tx with finished := true }⟩ ∧
        after.Logged ∧ after.pageCount = tx.localPageCount ∧ after.freelist = tx.localFreelist) ∨
      ∃ fault after, commit order ⟨engine, tx⟩ = .error fault ⟨after, tx⟩ ∧ after.Logged ∧
        after.pageCount = engine.pageCount ∧ after.freelist = engine.freelist := by
  rcases appendPending_logged order logged sized with
    ⟨version, between, appends, still, -, -⟩ | ⟨fault, after, fails, still, count, free⟩
  · have published := @publish_eq between tx version unfinished
    exact Or.inl ⟨_, (Exec.bind_of_ok appends).trans published, still.of_stored rfl rfl rfl, rfl, rfl⟩
  · exact Or.inr ⟨fault, after, Exec.bind_of_error fails, still, count, free⟩

end WriteTx

/-! ## Checkpoints -/

namespace StorageEngine

variable {engine after : StorageEngine}

/-- The commits of a log that has pages outlast a change of the main file. -/
theorem Logged.of_log (logged : engine.Logged) (some : engine.wal.index.isEmpty = false)
    (log : after.disk.log = engine.disk.log) (wal : after.wal = engine.wal) : after.Logged := by
  obtain ⟨kept, rest, split, offset, recorded⟩ := logged
  refine ⟨kept, rest, log.trans split, by rw [wal]; exact offset, Or.inr ?_⟩
  rcases recorded with ⟨-, empty, -⟩ | settled
  · rw [empty] at some
    cases some
  · rw [wal]
    exact settled

/-- The header of a folded file records the size logged last. -/
theorem dbSize_le_header (inner : WalInner) (main : Bytes) :
    inner.dbSize ≤ UInt32.ofNat (headerPages (putHeader inner main)) := by
  rw [headerPages_putHeader, UInt32.ofNat_toNat]
  exact le_max_right _ _

/-- A fold, wherever it stops, keeps the log in order and the pool as it is. -/
theorem foldLog_logged (logged : engine.Logged) (some : engine.wal.index.isEmpty = false)
    (real : ∀ page ∈ lastVersions engine.wal.index, page.1 ≠ 0) :
    (Exec.reached foldLog engine).Logged ∧
      (Exec.reached foldLog engine).pageCount = engine.pageCount ∧
      (Exec.reached foldLog engine).freelist = engine.freelist := by
  have begun : foldLog engine =
      (writePages (lastVersions engine.wal.index) >>= fun _ => resetLog engine.wal) engine := by
    rw [foldLog]
    refine (Exec.bind_of_ok rfl).trans ?_
    simp only [some, Bool.false_eq_true, if_false]
  by_cases enough : ∀ left ∈ engine.disk.left, (lastVersions engine.wal.index).length ≤ left
  · obtain ⟨between, written, main, left, cache, middle⟩ : ∃ between,
        writePages (lastVersions engine.wal.index) engine = .ok () between ∧
          ∃ main left cache, between = engine.withMain main left cache :=
      ⟨_, writePages_done real enough, _, _, _, rfl⟩
    have continued := begun.trans (Exec.bind_of_ok written)
    have same : Exec.reached foldLog engine = Exec.reached (resetLog engine.wal) between := by
      simp only [Exec.reached, continued]
    rw [same, middle]
    by_cases whole : ∀ budget ∈ left, 3 ≤ budget
    · rw [Exec.reached_of_ok (resetLog_done whole)]
      refine ⟨⟨[], [], rfl, rfl, Or.inl ⟨rfl, rfl, ?_⟩⟩, rfl, rfl⟩
      exact (dbSize_le_header engine.wal _).trans (le_max_left _ _)
    · push Not at whole
      obtain ⟨budget, bounded, few⟩ := whole
      obtain ⟨stays, stopped, -⟩ := @resetLog_crashed engine.wal (engine.withMain main left cache)
        budget few bounded
      rw [stopped]
      exact ⟨logged.of_log some rfl rfl, rfl, rfl⟩
  · push Not at enough
    obtain ⟨budget, bounded, few⟩ := enough
    obtain ⟨cache, failed⟩ := writePages_failed real few bounded
    rw [Exec.reached_of_error (begun.trans (Exec.bind_of_error failed))]
    exact ⟨logged.of_log some rfl rfl, rfl, rfl⟩

/-- A checkpoint too. -/
theorem checkpoint_logged (logged : engine.Logged) :
    (Exec.reached checkpoint engine).Logged ∧
      (Exec.reached checkpoint engine).pageCount = engine.pageCount ∧
      (Exec.reached checkpoint engine).freelist = engine.freelist := by
  have begun := checkpoint_eq engine
  by_cases lagging : engine.mvcc.oldestRequiredVersion < engine.mvcc.currentVersion
  · rw [if_pos lagging] at begun
    rw [Exec.reached_of_ok begun]
    exact ⟨logged, rfl, rfl⟩
  rw [if_neg lagging] at begun
  have same : Exec.reached checkpoint engine = Exec.reached foldLog engine := by
    simp only [Exec.reached, begun]
  rw [same]
  cases empty : engine.wal.index.isEmpty with
  | true =>
      rw [Exec.reached_of_ok (foldLog_of_isEmpty empty)]
      exact ⟨logged, rfl, rfl⟩
  | false =>
      by_cases zero : ∃ page ∈ lastVersions engine.wal.index, page.1 = 0
      · obtain ⟨page, among, isZero⟩ := zero
        rw [Exec.reached_of_error (foldLog_zero empty among isZero)]
        exact ⟨logged, rfl, rfl⟩
      · exact foldLog_logged logged empty fun page among isZero => zero ⟨page, among, isZero⟩

/-! ## Opening -/

/-- What opening the main file reads is the size in its header. -/
theorem openFile_size {disk between : Disk} {header : DbHeader} (unbounded : disk.left = none)
    (opened : DatabaseFile.openFile disk = .ok header between) :
    between = { disk with main := openedMain disk.main } ∧
      header.dbSizePages = UInt32.ofNat (headerPages (openedMain disk.main)) := by
  by_cases empty : disk.main = []
  · rw [openFile_of_empty unbounded empty] at opened
    obtain ⟨rfl, rfl⟩ := EStateM.Result.ok.inj opened
    rw [openedMain, if_pos empty]
    exact ⟨rfl, by decide +kernel⟩
  · have filled : disk.main.length ≠ 0 := fun none => empty (List.length_eq_zero_iff.mp none)
    rw [DatabaseFile.openFile, Exec.bind_eq_ok] at opened
    obtain ⟨_, _, got, rest⟩ := opened
    cases got
    simp only [filled, if_false] at rest
    rw [openedMain, if_neg empty]
    cases read : pread disk.main 0 pageSize with
    | none => simp [read] at rest
    | some first =>
        rw [read] at rest
        obtain ⟨parsed, rfl⟩ := Exec.lift_eq_ok.mp rest
        refine ⟨rfl, ?_⟩
        have front : first = disk.main.take pageSize := by
          unfold pread at read
          split at read
          · rw [← Option.some.inj read, List.drop_zero]
          · cases read
        have same : field first 28 4 = headerPages disk.main := by
          rw [headerPages, field, field, front, List.drop_take, List.take_take]
          rfl
        rw [← same]
        exact DbHeader.dbSizePages_readFrom parsed

/-- What an opened engine has from its files. -/
theorem openInner_parts {disk after : Disk} (unbounded : disk.left = none)
    (opened : openInner disk = .ok engine after) :
    engine.disk.main = openedMain disk.main ∧ engine.freelist = [] ∧
      WriteAheadLog.openLog (UInt32.ofNat (headerPages (openedMain disk.main)))
        { disk with main := openedMain disk.main } = .ok engine.wal engine.disk ∧
      engine.pageCount = max engine.recordedPages 1 := by
  obtain ⟨-, main⟩ := openInner_facts unbounded opened
  rw [openInner, Exec.bind_eq_ok] at opened
  obtain ⟨header, between, fileOpened, opened⟩ := opened
  obtain ⟨rfl, size⟩ := openFile_size unbounded fileOpened
  rw [Exec.bind_eq_ok] at opened
  obtain ⟨inner, between, logOpened, opened⟩ := opened
  rw [Exec.bind_of_ok (pageCount_eq between)] at opened
  have made := (Exec.bind_of_ok rfl).symm.trans opened
  obtain ⟨rfl, rfl⟩ := EStateM.Result.ok.inj made
  simp only at main logOpened
  refine ⟨main, rfl, size ▸ logOpened, ?_⟩
  rw [recordedPages, main, ← size]
  rfl

/-- An opened log is in order. -/
theorem logged_of_opened {disk after : Disk} (unbounded : disk.left = none)
    (opened : openInner disk = .ok engine after) : engine.Logged := by
  obtain ⟨main, -, logOpened, -⟩ := openInner_parts unbounded opened
  obtain ⟨kept, rest, inner, -, settled, ran⟩ := @WriteAheadLog.openLog_ok
    (UInt32.ofNat (headerPages (openedMain disk.main))) { disk with main := openedMain disk.main }
    unbounded
  obtain ⟨wal, files⟩ := EStateM.Result.ok.inj (logOpened.symm.trans ran)
  refine ⟨kept, [], ?_, ?_, ?_⟩
  · rw [files, List.append_nil]
  · rw [wal]
  · rcases settled.sized with ⟨none, fresh⟩ | all
    · rw [wal, fresh, main]
      exact Or.inl ⟨none, rfl, le_max_left _ _⟩
    · rw [wal]
      exact Or.inr ⟨inner, all, rfl⟩

/-- A new file records no less than the empty one. -/
theorem openedMain_records (main : Bytes) :
    UInt32.ofNat (headerPages main) ≤ UInt32.ofNat (headerPages (openedMain main)) ∧
      UInt32.ofNat (physicalPages main) ≤ UInt32.ofNat (physicalPages (openedMain main)) := by
  unfold openedMain
  split
  · next empty =>
    subst empty
    decide +kernel
  · exact ⟨le_rfl, le_rfl⟩

/-- Files that are opened again record what they recorded, when no frame behind the last commit
carries a mark. -/
theorem recordedPages_le {before : StorageEngine} {files : Disk} (logged : before.Logged)
    (noMark : before.NoMarkBehind) (unbounded : before.disk.left = none)
    (opened : openInner before.disk = .ok engine files) :
    before.recordedPages ≤ engine.recordedPages := by
  obtain ⟨main, -, logOpened, -⟩ := openInner_parts unbounded opened
  obtain ⟨header, physical⟩ := openedMain_records before.disk.main
  rw [← main] at header physical
  have sizes : before.wal.dbSize ≤ engine.recordedPages := by
    obtain ⟨kept, rest, split, offset, recorded⟩ := logged
    rcases recorded with ⟨-, -, small⟩ | ⟨inner, settled, same⟩
    · refine small.trans (max_le ?_ ?_)
      · exact header.trans ((le_max_left _ _).trans (le_max_left _ _))
      · exact physical.trans (le_max_right _ _)
    · obtain ⟨whole, tail, frames, cut, holds, unreadable⟩ := WriteAheadLog.exists_holds rest
      have behind : before.disk.log.drop before.wal.writeOffset = whole ++ tail := by
        rw [split, offset, List.drop_left, cut]
      have unmarked := noMark whole tail frames behind holds
      have ran : WriteAheadLog.openLog _ ⟨openedMain before.disk.main, _, none⟩ = _ :=
        WriteAheadLog.openLog_of_settled
          (settled (UInt32.ofNat (headerPages (openedMain before.disk.main)))) holds unmarked unreadable
      rw [← cut, ← split, ← unbounded] at ran
      obtain ⟨wal, -⟩ := EStateM.Result.ok.inj (logOpened.symm.trans ran)
      have size : engine.wal.dbSize = before.wal.dbSize := by
        rw [wal]
        exact same
      rw [← size]
      exact (le_max_right _ _).trans (le_max_left _ _)
  refine max_le (max_le ?_ sizes) ?_
  · exact header.trans ((le_max_left _ _).trans (le_max_left _ _))
  · exact physical.trans (le_max_right _ _)

end StorageEngine

end Squrust.Core
