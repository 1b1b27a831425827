import Squrust.Core.Storage.Transactions

/-!
# Crashes during a checkpoint

A checkpoint that stops between two of its effects leaves the log as it is until
all pages and the header are in the main file, so the files have every page of
the committed state (`Stopped.has`). They open when the header on page 1 is
valid: from the write of page 1 to the write of the header it is that of the
last version of page 1 (`checkpoint_survives_iff`).
-/

set_option autoImplicit false

namespace Squrust.Core

open Squrust.Foundation

namespace StorageEngine

/-- The files after the code was stopped behind some number of its effects. -/
def crashed (code : Exec StorageEngine StorageError Unit) (effects : Nat) (engine : StorageEngine) :
    Disk :=
  let bounded := { engine with disk := { engine.disk with left := some effects } }
  { (Exec.reached code bounded).disk with left := none }

/-- The files open, and every page of the state is read back. -/
def Recovers (disk : Disk) (contents : Contents) : Prop :=
  ∃ engine after, openInner disk = .ok engine after ∧
    ∀ id data, contents id = some data →
      ∃ page later, readPageAt id engine.mvcc.currentVersion engine = .ok page later ∧
        page.id = id ∧ body id page.data = body id data

/-- No page is written: a reader lags behind, or the first page is page 0, which has no place. -/
def Skips (engine : StorageEngine) : Prop :=
  engine.mvcc.oldestRequiredVersion < engine.mvcc.currentVersion ∨
    ∃ page ∈ lastVersions engine.wal.index, page.1 = 0

/-- The crash does not come between the write of page 1 and that of the header, or the last version
of page 1 has a header that is valid. -/
def KeepsHeader (engine : StorageEngine) (effects : Nat) : Prop :=
  engine.Skips ∨ effects = 0 ∨ (lastVersions engine.wal.index).length < effects ∨
    ∀ data, (1, data) ∈ lastVersions engine.wal.index → DbHeader.Valid data.val

/-! ## The pages of the files -/

variable {engine : StorageEngine} {versions : List TransactionId} {disk : Disk}

/-- All snapshots that see all versions see the same. -/
theorem visible_of_upTo {index : PageIndex} {main : Bytes} {version version' : TransactionId}
    (upTo : index.UpTo version) (upTo' : index.UpTo version') :
    visible index main version = visible index main version' := by
  funext id
  rw [visible, visible, PageIndex.readPage_of_upTo upTo, PageIndex.readPage_of_upTo upTo']

/-- Files with a valid header and all pages of a state are recovered. -/
theorem recovers_of_valid {index : PageIndex} {contents : Contents} (unbounded : disk.left = none)
    (valid : ∃ first, pageAt disk.main 1 = some first ∧ DbHeader.Valid first.val)
    (replays : Replays disk.log index)
    (has : ∀ version id data, index.UpTo version → contents id = some data →
      ∃ found, visible index disk.main version id = some found ∧ body id found = body id data) :
    Recovers disk contents := by
  obtain ⟨first, here, valid⟩ := valid
  obtain ⟨header, fileOpened⟩ := openFile_of_valid here valid
  obtain ⟨opened, ran, sound, main, indices⟩ :=
    @openInner_of_openFile disk header disk.main unbounded fileOpened ⟨first, here, valid⟩
  refine ⟨opened, opened.disk, ran, fun id data known => ?_⟩
  have same := indices index replays
  have upTo := sound.upTo
  rw [same] at upTo
  obtain ⟨found, sees, sameBody⟩ := has opened.mvcc.committed id data upTo known
  rw [← same, ← main] at sees
  obtain ⟨page, cache, returned, named, sameBody', -⟩ := readPageAt_visible sound.mirrors sees
  exact ⟨page, _, returned, named, sameBody'.trans sameBody⟩

/-- Files whose header is not valid are not. -/
theorem not_recovers_of_invalid {first : PageData} {contents : Contents}
    (here : pageAt disk.main 1 = some first) (invalid : ¬ DbHeader.Valid first.val) :
    ¬ Recovers disk contents := by
  rintro ⟨opened, after, ran, -⟩
  rw [openInner, Exec.bind_eq_ok] at ran
  obtain ⟨header, between, fileOpened, -⟩ := ran
  exact openFile_of_invalid here invalid header between fileOpened

/-- The files as they are have the committed state. -/
theorem Sound.recovers (sound : engine.Sound versions) : Recovers engine.disk engine.contents := by
  refine recovers_of_valid sound.unbounded sound.header sound.replays fun version id data upTo known => ?_
  refine ⟨data, ?_, rfl⟩
  rw [visible_of_upTo upTo sound.upTo]
  exact known

/-! ## A fold that stops -/

/-- A disk whose number of effects is given, and then not limited again. -/
theorem unlimited_limited {effects : Nat} (unbounded : disk.left = none) :
    { { disk with left := some effects } with left := none } = disk := by
  obtain ⟨main, log, left⟩ := disk
  simp only at unbounded
  rw [unbounded]

/-- Code that leaves the files alone wherever it stops. -/
theorem crashed_eq_disk {code : Exec StorageEngine StorageError Unit} {effects : Nat}
    (unbounded : engine.disk.left = none)
    (leaves : ∀ bounded : StorageEngine, bounded.mvcc = engine.mvcc → bounded.wal = engine.wal →
      (Exec.reached code bounded).disk = bounded.disk) :
    crashed code effects engine = engine.disk := by
  have same := leaves { engine with disk := { engine.disk with left := some effects } } rfl rfl
  simp only [crashed, same]
  exact @unlimited_limited _ effects unbounded

theorem isEmpty_of_mem {page : PageId × PageData} {index : PageIndex}
    (among : page ∈ lastVersions index) : index.isEmpty = false := by
  cases empty : index.isEmpty with
  | false => rfl
  | true =>
      rw [FiniteMap.eq_empty_of_isEmpty empty] at among
      cases among

/-- A checkpoint that is skipped changes no file. -/
theorem crashed_of_skips (skips : engine.Skips) (unbounded : engine.disk.left = none) (effects : Nat) :
    crashed checkpoint effects engine = engine.disk := by
  refine crashed_eq_disk unbounded fun bounded mvcc wal => ?_
  have begun := checkpoint_eq bounded
  rw [mvcc] at begun
  by_cases lagging : engine.mvcc.oldestRequiredVersion < engine.mvcc.currentVersion
  · rw [if_pos lagging] at begun
    rw [Exec.reached_of_ok begun]
  · rw [if_neg lagging] at begun
    obtain ⟨page, among, zero⟩ := skips.resolve_left lagging
    rw [← wal] at among
    rw [Exec.reached_of_error (begun.trans (foldLog_zero (isEmpty_of_mem among) among zero))]

/-- Which pages the main file has, and whether the log is there, when a fold stopped. -/
structure Stopped (engine : StorageEngine) (effects : Nat) (disk : Disk) : Prop where
  unbounded : disk.left = none
  main : disk.main = if effects ≤ (lastVersions engine.wal.index).length then
      writeAll ((lastVersions engine.wal.index).take effects) engine.disk.main
    else putHeader engine.wal (writeAll (lastVersions engine.wal.index) engine.disk.main)
  log : disk.log = if effects < (lastVersions engine.wal.index).length + 3 then engine.disk.log else []

theorem stopped_of_not_skips (folds : ¬ engine.Skips) (some : engine.wal.index.isEmpty = false)
    (effects : Nat) : Stopped engine effects (crashed checkpoint effects engine) := by
  unfold Skips at folds
  push Not at folds
  obtain ⟨current, real⟩ := folds
  have begun := checkpoint_eq { engine with disk := { engine.disk with left := Option.some effects } }
  dsimp only at begun
  rw [if_neg (not_lt.mpr current)] at begun
  have same : crashed checkpoint effects engine = crashed foldLog effects engine := by
    simp only [crashed, Exec.reached, begun]
  rw [same]
  obtain ⟨main, log⟩ := @foldLog_crashed
    { engine with disk := { engine.disk with left := Option.some effects } } effects some real rfl
  exact ⟨rfl, main, log⟩

variable {effects : Nat}

/-- Wherever a fold stops, the files have all pages of the committed state. -/
theorem Stopped.has (stopped : Stopped engine effects disk) (sound : engine.Sound versions)
    (folds : ¬ engine.Skips) :
    ∃ index, Replays disk.log index ∧
      ∀ version id data, index.UpTo version → engine.contents id = some data →
        ∃ found, visible index disk.main version id = some found ∧ body id found = body id data := by
  unfold Skips at folds
  push Not at folds
  have real := folds.2
  by_cases emptied : effects < (lastVersions engine.wal.index).length + 3
  · refine ⟨engine.wal.index, ?_, fun version id data upTo known => ?_⟩
    · rw [stopped.log, if_pos emptied]
      exact sound.replays
    · unfold contents at known
      rw [visible_of_upTo sound.upTo upTo] at known
      rw [stopped.main]
      split
      · exact ⟨data, visible_writeAll upTo real effects known, rfl⟩
      · -- The header is in the main file, the log still has its pages.
        by_cases among : ∃ found, (id, found) ∈ lastVersions engine.wal.index
        · obtain ⟨found, among⟩ := among
          rw [visible_of_mem upTo among] at known ⊢
          exact ⟨data, known, rfl⟩
        · have absent : ∀ page ∈ lastVersions engine.wal.index, page.1 ≠ id := by
            rintro ⟨other, found⟩ member rfl
            exact among ⟨found, member⟩
          rw [visible_of_notMem upTo absent]
          exact pageAt_putHeader (pageAt_writeAll_lastVersions upTo real known)
  · refine ⟨FiniteMap.empty, ?_, fun version id data _ known => ?_⟩
    · rw [stopped.log, if_neg emptied]
      exact fun size => ⟨_, WriteAheadLog.settled_nil size, rfl⟩
    · unfold contents at known
      rw [stopped.main, if_neg (by omega)]
      exact pageAt_putHeader (pageAt_writeAll_lastVersions sound.upTo real known)

/-- The first page of the main file when a fold stopped before the header. -/
theorem Stopped.first (stopped : Stopped engine effects disk) (folds : ¬ engine.Skips)
    (few : effects ≤ (lastVersions engine.wal.index).length) {first : PageData}
    (here : pageAt engine.disk.main 1 = some first) :
    (∃ data, (1, data) ∈ (lastVersions engine.wal.index).take effects ∧
        pageAt disk.main 1 = some data) ∨ pageAt disk.main 1 = some first := by
  unfold Skips at folds
  push Not at folds
  have real : ∀ page ∈ (lastVersions engine.wal.index).take effects, page.1 ≠ 0 :=
    fun page among => folds.2 page (List.mem_of_mem_take among)
  have distinct : (((lastVersions engine.wal.index).take effects).map Prod.fst).Nodup :=
    (nodup_lastVersions engine.wal.index).sublist ((List.take_sublist _ _).map _)
  rw [stopped.main, if_pos few]
  by_cases among : ∃ data, (1, data) ∈ (lastVersions engine.wal.index).take effects
  · obtain ⟨data, among⟩ := among
    exact Or.inl ⟨data, among, pageAt_writeAll real distinct among⟩
  · refine Or.inr (pageAt_writeAll_of_notMem real (fun page member same => ?_) here)
    obtain ⟨id, data⟩ := page
    simp only at same
    subst same
    exact among ⟨data, member⟩

/-- Page 1 is written first. -/
theorem mem_take_of_pos {index : PageIndex} (real : ∀ page ∈ lastVersions index, page.1 ≠ 0)
    {data : PageData} (among : (1, data) ∈ lastVersions index) (positive : effects ≠ 0) :
    (1, data) ∈ (lastVersions index).take effects := by
  have ascending := ascending_lastVersions index
  cases pages : lastVersions index with
  | nil =>
      rw [pages] at among
      cases among
  | cons front rest =>
      rw [pages] at among ascending real
      obtain ⟨count, rfl⟩ := Nat.exists_eq_succ_of_ne_zero positive
      rw [List.take_succ_cons]
      rcases List.mem_cons.mp among with same | later
      · rw [same]
        exact List.mem_cons_self
      · have below := (List.pairwise_cons.mp ascending).1 _ later
        have zero : front.1 = 0 := by
          rw [← UInt32.toNat_inj]
          rw [UInt32.lt_iff_toNat_lt] at below
          exact Nat.lt_one_iff.mp below
        exact absurd zero (real front List.mem_cons_self)

/-- A crash in a checkpoint is survived exactly when the header is kept. -/
theorem Sound.recovers_crashed_iff (sound : engine.Sound versions) :
    Recovers (crashed StorageEngine.checkpoint effects engine) engine.contents ↔ engine.KeepsHeader effects := by
  unfold KeepsHeader
  by_cases skips : engine.Skips
  · rw [crashed_of_skips skips sound.unbounded]
    exact iff_of_true sound.recovers (Or.inl skips)
  cases empty : engine.wal.index.isEmpty with
  | true =>
      have same : crashed StorageEngine.checkpoint effects engine = engine.disk := by
        refine crashed_eq_disk sound.unbounded fun bounded mvcc wal => ?_
        have begun := checkpoint_eq bounded
        split at begun
        · rw [Exec.reached_of_ok begun]
        · rw [Exec.reached_of_ok (begun.trans (foldLog_of_isEmpty (by rw [wal, empty])))]
      rw [same]
      refine iff_of_true sound.recovers (Or.inr (Or.inr (Or.inr fun data among => ?_)))
      rw [isEmpty_of_mem among] at empty
      cases empty
  | false =>
      have stopped := stopped_of_not_skips skips empty effects
      obtain ⟨index, replays, has⟩ := stopped.has sound skips
      constructor
      · intro recovers
        by_contra lost
        push Not at lost
        obtain ⟨-, positive, few, data, among, invalid⟩ := lost
        have real : ∀ page ∈ lastVersions engine.wal.index, page.1 ≠ 0 := fun page member zero =>
          skips (Or.inr ⟨page, member, zero⟩)
        have written := @pageAt_writeAll _ engine.disk.main _ _ (fun page member => real page (List.mem_of_mem_take member))
          ((nodup_lastVersions engine.wal.index).sublist ((List.take_sublist effects _).map _))
          (mem_take_of_pos real among positive)
        have main := stopped.main
        rw [if_pos few] at main
        rw [← main] at written
        exact not_recovers_of_invalid written invalid recovers
      · intro kept
        refine recovers_of_valid stopped.unbounded ?_ replays has
        by_cases few : effects ≤ (lastVersions engine.wal.index).length
        · obtain ⟨first, here, valid⟩ := sound.header
          rcases stopped.first skips few here with ⟨data, among, found⟩ | unchanged
          · refine ⟨data, found, ?_⟩
            rcases kept with skips' | none | past | valid'
            · exact absurd skips' skips
            · rw [none] at among
              cases among
            · exact absurd few (by omega)
            · exact valid' data (List.mem_of_mem_take among)
          · exact ⟨first, unchanged, valid⟩
        · have main := stopped.main
          rw [if_neg few] at main
          rw [main]
          exact valid_putHeader _ _

end StorageEngine

/-- **Crashes.** After any calls on an opened database, a checkpoint that stops behind any number of
its effects leaves files that open with every page of the committed state, exactly when the header
on page 1 is kept. -/
theorem checkpoint_survives_iff {disk after : Disk} {engine : StorageEngine}
    (unbounded : disk.left = none) (opened : StorageEngine.openInner disk = .ok engine after)
    (calls : List EngineCall) (effects : Nat) :
    let now := ((Session.start engine).run calls).1.engine
    StorageEngine.Recovers (StorageEngine.crashed StorageEngine.checkpoint effects now)
      now.contents ↔ now.KeepsHeader effects := by
  have simulates := (StorageEngine.openInner_sound unbounded opened).simulates
    (StorageEngine.gate_of_openInner opened)
  obtain ⟨-, store, reached⟩ := simulates.run calls
  exact reached.sound.recovers_crashed_iff

/-- What the tree writes on page 1 when the catalog is empty. -/
def emptyCatalogPage : PageData :=
  match Node.emptyLeaf.serializeInto (RawPage.new 1) with
  | .ok page => page.data
  | _ => PageData.zero

/-- The calls of a statement that leaves the catalog empty. -/
def dropLastTable : List EngineCall :=
  [.beginWrite, .getPage 1, .writePage ⟨1, emptyCatalogPage⟩, .commit [1]]

/-- A crash of a checkpoint of a new database, whose log is empty. -/
theorem checkpoint_survives_new :
    ∃ engine after, StorageEngine.openInner ⟨[], [], none⟩ = .ok engine after ∧
      let now := ((Session.start engine).run [.beginRead 0]).1.engine
      (StorageEngine.Recovers (StorageEngine.crashed StorageEngine.checkpoint 1 now)
        now.contents ↔ now.KeepsHeader 1) := by
  obtain ⟨engine, opened, -⟩ := openInner_new
  exact ⟨engine, engine.disk, opened, checkpoint_survives_iff rfl opened [.beginRead 0] 1⟩

/-- A crash behind the first page of a checkpoint: the main file has no header. -/
theorem dropLastTable_not_recovered :
    ∃ engine after, StorageEngine.openInner ⟨[], [], none⟩ = .ok engine after ∧
      let now := ((Session.start engine).run dropLastTable).1.engine
      ¬ StorageEngine.Recovers (StorageEngine.crashed StorageEngine.checkpoint 1 now)
        now.contents := by
  have refused : (match StorageEngine.openInner ⟨[], [], none⟩ with
      | .ok engine _ =>
          match StorageEngine.openInner (StorageEngine.crashed StorageEngine.checkpoint 1
            ((Session.start engine).run dropLastTable).1.engine) with
          | .ok _ _ => false
          | .error _ _ => true
      | .error _ _ => false) = true := by decide +kernel
  obtain ⟨engine, opened, -⟩ := openInner_new
  rw [opened] at refused
  refine ⟨engine, engine.disk, opened, ?_⟩
  rintro now ⟨reopened, after, ran, -⟩
  simp only [now] at ran
  simp only [ran] at refused
  exact Bool.noConfusion refused

end Squrust.Core
