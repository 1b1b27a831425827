import Squrust.Core.Storage.Fold
import Squrust.Core.Wal.Append

/-!
# Engines in order

What holds of an engine whenever no call is at work on it (`Sound`): the cache
mirrors the main file, the log has no version newer than the committed one and
replays to its index, readers are counted, and the header of the main file is
valid. Opening gives a sound engine, and lookups, commits and checkpoints keep
it so.
-/

set_option autoImplicit false

namespace Squrust.Core

open Squrust.Foundation

/-! ## The pages of a commit -/

namespace PageIndex

/-- Stamps are not entered into the index. -/
theorem pushAll_stamp (version stamped : UInt64) (dbSize : UInt32) (frames : List WalFrame)
    (index : PageIndex) :
    index.pushAll version (WriteAheadLog.stamp stamped dbSize frames) =
      index.pushAll version frames := by
  induction frames generalizing index with
  | nil => rfl
  | cons frame rest ih =>
      cases rest with
      | nil => rfl
      | cons next rest =>
          rw [WriteAheadLog.stamp, pushAll, List.foldl_cons, ← pushAll, ih]
          rfl

end PageIndex

namespace WriteTx

/-- Each pending page is kept under its id. -/
def Keyed (pending : FiniteMap PageId RawPage) : Prop :=
  ∀ id page, pending.get? id = some page → page.id = id

/-- However a map is walked, its pages are the same. -/
theorem values_perm (pending : FiniteMap PageId RawPage) (order : List PageId) :
    (values pending order).Perm (pending.entries.map Prod.snd) := by
  unfold values
  split
  · next same =>
    have keys : (pending.entries.map Prod.fst).filterMap pending.get? =
        pending.entries.map Prod.snd := by
      rw [List.filterMap_map, ← List.filterMap_eq_map]
      refine List.filterMap_congr fun entry among => ?_
      exact FiniteMap.get?_eq_some_iff.mpr among
    rw [← keys]
    exact (List.isPerm_iff.mp same).filterMap _
  · exact .refl _

/-- The pending page of an id is the only one with it. -/
theorem filter_values {pending : FiniteMap PageId RawPage} (keyed : Keyed pending)
    (order : List PageId) (id : PageId) :
    (values pending order).filter (fun page => page.id = id) = (pending.get? id).toList := by
  have inEntries : (pending.entries.map Prod.snd).filter (fun page => page.id = id) =
      (pending.get? id).toList := by
    rw [← pending.map_snd_filter_key id, List.filter_map]
    congr 1
    refine List.filter_congr fun entry among => ?_
    rw [Function.comp_apply, keyed entry.1 entry.2 (FiniteMap.get?_eq_some_iff.mpr among)]
  have walked := (values_perm pending order).filter fun page => page.id = id
  rw [inEntries] at walked
  cases found : pending.get? id with
  | none =>
      rw [found] at walked
      exact List.perm_nil.mp walked
  | some page =>
      rw [found] at walked
      exact List.perm_singleton.mp walked

end WriteTx

/-! ## Engines in order -/

namespace StorageEngine

/-- The log file is whole commits and replays to the index, whatever size the main file has. -/
def Replays (log : Bytes) (index : PageIndex) : Prop :=
  ∀ size, ∃ inner, WriteAheadLog.Settled log size inner ∧ inner.index = index

/-- What holds of an engine between two calls; the readers are those with the given versions. -/
structure Sound (engine : StorageEngine) (versions : List TransactionId) : Prop where
  unbounded : engine.disk.left = none
  mirrors : Mirrors engine.cache engine.disk.main
  upTo : engine.wal.index.UpTo engine.mvcc.committed
  counts : engine.mvcc.Counts versions
  pinned : ∀ version ∈ versions, version ≤ engine.mvcc.committed
  offset : engine.wal.writeOffset = engine.disk.log.length
  replays : Replays engine.disk.log engine.wal.index
  header : ∃ first, pageAt engine.disk.main 1 = some first ∧ DbHeader.Valid first.val
  pages : engine.pageCount ≠ 0

variable {engine : StorageEngine} {versions : List TransactionId}

/-- Only the cache changed. -/
theorem Sound.withCache (sound : engine.Sound versions) {cache : PageCache}
    (mirrors : Mirrors cache engine.disk.main) : Sound { engine with cache } versions :=
  { sound with mirrors }

theorem Sound.beginRead (sound : engine.Sound versions) :
    Sound { engine with mvcc := engine.mvcc.register engine.mvcc.committed }
      (engine.mvcc.committed :: versions) :=
  { sound with
    counts := sound.counts.register engine.mvcc.committed
    pinned := by
      intro version among
      rcases List.mem_cons.mp among with rfl | among
      · exact le_rfl
      · exact sound.pinned version among }

theorem Sound.perm {versions' : List TransactionId} (sound : engine.Sound versions)
    (same : versions.Perm versions') : engine.Sound versions' :=
  { sound with
    counts := sound.counts.perm same
    pinned := fun version among => sound.pinned version (same.mem_iff.mpr among) }

theorem Sound.dropRead {version : TransactionId} (sound : engine.Sound (version :: versions)) :
    (engine.dropRead version).Sound versions := by
  have same := engine.mvcc.committed_endRead version
  refine { sound with counts := sound.counts.endRead, upTo := ?_, pinned := ?_ }
  · change engine.wal.index.UpTo (engine.mvcc.endRead version).committed
    rw [same]
    exact sound.upTo
  · intro other among
    change other ≤ (engine.mvcc.endRead version).committed
    rw [same]
    exact sound.pinned other (List.mem_cons_of_mem _ among)

/-! ## Commits -/

theorem mirrors_invalidate {cache : PageCache} {main : Bytes} (mirrors : Mirrors cache main)
    (pages : List RawPage) :
    Mirrors (pages.foldl (fun cache page => cache.invalidate page.id) cache) main := by
  induction pages generalizing cache with
  | nil => exact mirrors
  | cons page rest ih =>
      refine ih fun id found cached => ?_
      exact mirrors id found (PageCache.lookup_invalidate cached).2

theorem onLog_of_ok {α : Type} {code : Exec WriteAheadLog StorageError α} {value : α}
    {log : WriteAheadLog} (returned : code engine.log = .ok value log) :
    onLog code engine = .ok value { engine with disk := log.disk, wal := log.inner } := by
  simp only [onLog, Exec.onPart, returned]

theorem onLog_of_error {α : Type} {code : Exec WriteAheadLog StorageError α}
    {fault : Fault StorageError} {log : WriteAheadLog}
    (failed : code engine.log = .error fault log) :
    onLog code engine = .error fault { engine with disk := log.disk, wal := log.inner } := by
  simp only [onLog, Exec.onPart, failed]

/-- What the first half of a commit does: frames behind the log, and their pages in the index. -/
structure Appended (before after : StorageEngine) (version : TransactionId) (pages : List RawPage) :
    Prop where
  main : after.disk.main = before.disk.main
  left : after.disk.left = before.disk.left
  mvcc : after.mvcc = before.mvcc
  gate : after.gate = before.gate
  pageCount : after.pageCount = before.pageCount
  freelist : after.freelist = before.freelist
  index : after.wal.index =
    before.wal.index.pushAll version (pages.map (WriteTx.frameOf version before.wal.salt))
  offset : after.wal.writeOffset = after.disk.log.length
  replays : Replays after.disk.log after.wal.index
  mirrors : Mirrors after.cache after.disk.main

/-- Whole commits and one more. -/
theorem Replays.append {log : Bytes} {index : PageIndex} {frames : List WalFrame} {version : UInt64}
    {dbSize : UInt32} (replays : Replays log index) (nonempty : frames ≠ []) (sized : dbSize ≠ 0) :
    Replays (log ++ WriteAheadLog.encodeAll (WriteAheadLog.stamp version dbSize frames))
      (index.pushAll version (WriteAheadLog.stamp version dbSize frames)) := by
  intro size
  obtain ⟨inner, settled, rfl⟩ := replays size
  exact ⟨_, settled.append nonempty sized, rfl⟩

end StorageEngine

namespace WriteTx

open StorageEngine

variable {engine : StorageEngine} {tx : WriteTx}

theorem onEngine_of_ok {α : Type} {code : Exec StorageEngine StorageError α} {value : α}
    {after : StorageEngine} (returned : code engine = .ok value after) :
    onEngine code ⟨engine, tx⟩ = .ok value ⟨after, tx⟩ := by
  simp only [onEngine, Exec.onPart, returned]

theorem onEngine_of_error {α : Type} {code : Exec StorageEngine StorageError α}
    {fault : Fault StorageError} {after : StorageEngine} (failed : code engine = .error fault after) :
    onEngine code ⟨engine, tx⟩ = .error fault ⟨after, tx⟩ := by
  simp only [onEngine, Exec.onPart, failed]

theorem getPage_of_some {id : PageId} {page : RawPage} (own : tx.pending.get? id = some page) :
    getPage id ⟨engine, tx⟩ = .ok page ⟨engine, tx⟩ := by
  rw [getPage]
  refine (Exec.bind_of_ok rfl).trans ?_
  simp only [own]
  rfl

theorem getPage_of_none {id : PageId} (own : tx.pending.get? id = none) :
    getPage id ⟨engine, tx⟩ =
      onEngine (StorageEngine.readPageAt id tx.snapshot) ⟨engine, tx⟩ := by
  rw [getPage]
  refine (Exec.bind_of_ok rfl).trans ?_
  simp only [own]

theorem frames_ne_nil {order : List PageId} {version : TransactionId} {salt : UInt32}
    (some : tx.pending.isEmpty = false) :
    (values tx.pending order).map (frameOf version salt) ≠ [] := by
  intro noFrames
  have same := values_perm tx.pending order
  rw [List.map_eq_nil_iff.mp noFrames, List.nil_perm, List.map_eq_nil_iff] at same
  rw [FiniteMap.isEmpty, same] at some
  exact Bool.noConfusion some

/-- Without a next version nothing is appended. -/
theorem appendPending_spent (order : List PageId)
    (none : engine.mvcc.reserveCommitVersion = .panic "attempt to add with overflow") :
    appendPending order ⟨engine, tx⟩ = .error (.panic "attempt to add with overflow") ⟨engine, tx⟩ := by
  rw [appendPending]
  refine (Exec.bind_of_ok rfl).trans ?_
  simp only [none]
  exact Exec.bind_of_error rfl

/-- The pending pages are appended under the reserved version. -/
theorem appendPending_eq (order : List PageId) {version : TransactionId}
    (reserved : engine.mvcc.reserveCommitVersion = .ok version) :
    appendPending order ⟨engine, tx⟩ = (if tx.pending.isEmpty then return version else do
      modify fun writing => { writing with engine := { writing.engine with
        cache := (values tx.pending order).foldl (fun cache page => cache.invalidate page.id)
          writing.engine.cache } }
      onEngine (onLog (WriteAheadLog.appendCommit
        ((values tx.pending order).map (frameOf version engine.wal.salt)) version tx.localPageCount))
      return version : Exec Writing StorageError TransactionId) ⟨engine, tx⟩ := by
  rw [appendPending]
  refine (Exec.bind_of_ok rfl).trans ?_
  simp only [reserved]
  exact Exec.bind_of_ok rfl

theorem appendPending_ok (order : List PageId) {version : TransactionId}
    (unbounded : engine.disk.left = none) (mirrors : Mirrors engine.cache engine.disk.main)
    (offset : engine.wal.writeOffset = engine.disk.log.length)
    (replays : Replays engine.disk.log engine.wal.index) (sized : tx.localPageCount ≠ 0)
    (reserved : engine.mvcc.reserveCommitVersion = .ok version) :
    ∃ after, appendPending order ⟨engine, tx⟩ = .ok version ⟨after, tx⟩ ∧
      Appended engine after version (values tx.pending order) := by
  have begun := @appendPending_eq engine tx order version reserved
  cases empty : tx.pending.isEmpty with
  | true =>
      have noPages : values tx.pending order = [] := by
        have same := values_perm tx.pending order
        rw [FiniteMap.eq_empty_of_isEmpty empty] at same ⊢
        exact List.perm_nil.mp same
      refine ⟨engine, ?_, rfl, rfl, rfl, rfl, rfl, rfl, ?_, offset, replays, mirrors⟩
      · rw [begun, empty]
        rfl
      · rw [noPages]
        rfl
  | false =>
      have nonempty := @frames_ne_nil tx order version engine.wal.salt empty
      obtain ⟨⟨main, log, left⟩, wal, cache, mvcc, gate, pageCount, freelist⟩ := engine
      simp only at unbounded mirrors offset replays nonempty
      subst unbounded
      have done := @WriteAheadLog.appendCommit_done _ log [] main none version tx.localPageCount wal
        nonempty (by simp) offset
      rw [List.append_nil, List.drop_nil, List.append_nil] at done
      rw [begun, empty]
      refine ⟨?after, ?ran, ?facts⟩
      case ran =>
        refine (Exec.bind_of_ok rfl).trans ?_
        refine (Exec.bind_of_ok (onEngine_of_ok (onLog_of_ok done))).trans ?_
        exact rfl
      refine ⟨rfl, rfl, rfl, rfl, rfl, rfl, ?_, ?_, ?_, ?_⟩
      · exact PageIndex.pushAll_stamp _ _ _ _ _
      · simp only [List.length_append, WriteAheadLog.length_encodeAll, WriteAheadLog.length_stamp]
      · exact replays.append nonempty sized
      · exact mirrors_invalidate mirrors _

theorem publish_eq (version : TransactionId) (unfinished : tx.finished = false) :
    publish version ⟨engine, tx⟩ = .ok ()
      ⟨{ engine with
          mvcc := engine.mvcc.publishCommit version
          pageCount := tx.localPageCount
          freelist := tx.localFreelist
          gate := false },
        { tx with finished := true }⟩ := by
  rw [publish]
  refine (Exec.bind_of_ok rfl).trans ?_
  change EStateM.Result.ok _ (finish _) = _
  simp only [finish, unfinished, Bool.false_eq_true, if_false]

end WriteTx

namespace MvccManager

/-- The next version is newer, unless there is none. -/
theorem reserveCommitVersion_cases (mvcc : MvccManager) :
    (∃ version, mvcc.reserveCommitVersion = .ok version ∧ mvcc.committed < version) ∨
      mvcc.reserveCommitVersion = .panic "attempt to add with overflow" := by
  unfold reserveCommitVersion
  split
  · next room =>
    refine Or.inl ⟨_, rfl, ?_⟩
    have next : (mvcc.committed + 1).toNat = mvcc.committed.toNat + 1 := by
      rw [UInt64.toNat_add]
      exact Nat.mod_eq_of_lt room
    rw [UInt64.lt_iff_toNat_lt, next]
    exact Nat.lt_succ_self _
  · exact Or.inr rfl

end MvccManager

namespace StorageEngine

variable {engine : StorageEngine} {versions : List TransactionId} {tx : WriteTx}

/-- What a commit that got through did. -/
structure Advanced (before after : StorageEngine) (pages : List RawPage) : Prop where
  newer : before.mvcc.committed < after.mvcc.committed
  main : after.disk.main = before.disk.main
  index : after.wal.index = before.wal.index.pushAll after.mvcc.committed
    (pages.map (WriteTx.frameOf after.mvcc.committed before.wal.salt))
  gate : after.gate = false

/-- A commit gets through, or there is no next version and nothing changes. -/
theorem Sound.commit (sound : engine.Sound versions) (order : List PageId)
    (unfinished : tx.finished = false) (sized : tx.localPageCount ≠ 0) :
    (∃ after, WriteTx.commit order ⟨engine, tx⟩ = .ok () ⟨after, { tx with finished := true }⟩ ∧
        after.Sound versions ∧ Advanced engine after (WriteTx.values tx.pending order)) ∨
      WriteTx.commit order ⟨engine, tx⟩ =
        .error (.panic "attempt to add with overflow") ⟨engine, tx⟩ := by
  rcases engine.mvcc.reserveCommitVersion_cases with ⟨version, reserved, newer⟩ | none
  · left
    obtain ⟨between, appends, appended⟩ := WriteTx.appendPending_ok order sound.unbounded
      sound.mirrors sound.offset sound.replays sized reserved
    have published := @WriteTx.publish_eq between tx version unfinished
    have committed : (between.mvcc.publishCommit version).committed = version := by
      rw [appended.mvcc, MvccManager.publishCommit, if_pos newer]
    have counts : (between.mvcc.publishCommit version).Counts versions := by
      rw [appended.mvcc]
      exact sound.counts
    refine ⟨_, (Exec.bind_of_ok appends).trans published, ?_, ?_⟩
    · refine ⟨?_, appended.mirrors, ?_, counts, ?_, appended.offset, appended.replays, ?_, sized⟩
      · exact appended.left.trans sound.unbounded
      · change between.wal.index.UpTo (between.mvcc.publishCommit version).committed
        rw [committed, appended.index]
        exact (sound.upTo.mono newer.le).pushAll
      · intro other among
        change other ≤ (between.mvcc.publishCommit version).committed
        rw [committed]
        exact (sound.pinned other among).trans newer.le
      · change ∃ first, pageAt between.disk.main 1 = some first ∧ _
        rw [appended.main]
        exact sound.header
    · refine ⟨?_, appended.main, ?_, rfl⟩
      · change _ < (between.mvcc.publishCommit version).committed
        rwa [committed]
      · change between.wal.index = _
        rw [appended.index]
        simp only [committed]
  · exact Or.inr (Exec.bind_of_error (WriteTx.appendPending_spent order none))

/-! ## What snapshots see -/

/-- A snapshot sees all pages of a state. -/
def Shows (engine : StorageEngine) (version : TransactionId) (contents : Contents) : Prop :=
  ∀ id data, contents id = some data →
    ∃ found, visible engine.wal.index engine.disk.main version id = some found ∧
      body id found = body id data

variable {after : StorageEngine} {version : TransactionId} {contents : Contents}

/-- Snapshots older than appended pages see what they saw. -/
theorem Shows.of_pushAll {newer : TransactionId} {frames : List WalFrame}
    (shows_ : Shows engine version contents) (older : version < newer)
    (main : after.disk.main = engine.disk.main)
    (index : after.wal.index = engine.wal.index.pushAll newer frames) : Shows after version contents := by
  intro id data known
  rw [visible, index, main, PageIndex.readPage_pushAll_of_lt older]
  exact shows_ id data known

/-- Who sees the appended pages sees them, and the others as before. -/
theorem Shows.pushAll {order : List PageId} {newer : TransactionId} {salt : UInt32}
    (shows_ : Shows engine version contents) (upTo : engine.wal.index.UpTo version)
    (older : version ≤ newer) (keyed : WriteTx.Keyed tx.pending)
    (main : after.disk.main = engine.disk.main)
    (index : after.wal.index = engine.wal.index.pushAll newer
      ((WriteTx.values tx.pending order).map (WriteTx.frameOf newer salt))) :
    Shows after newer fun id =>
      match tx.pending.get? id with
      | some page => some page.data
      | none => contents id := by
  intro id data known
  have own := WriteTx.filter_values keyed order id
  have upTo' := upTo.mono older
  have frames : (((WriteTx.values tx.pending order).map (WriteTx.frameOf newer salt)).filter
        fun frame => frame.pageId = id) = (tx.pending.get? id).toList.map
      (WriteTx.frameOf newer salt) := by
    rw [← own, List.filter_map]
    rfl
  rw [visible, index, main, PageIndex.readPage_pushAll_of_le upTo', frames]
  cases pending : tx.pending.get? id with
  | some page =>
      simp only [pending, Option.some.injEq] at known
      subst known
      exact ⟨_, rfl, rfl⟩
  | none =>
      simp only [pending] at known
      obtain ⟨found, sees, same⟩ := shows_ id data known
      refine ⟨found, ?_, same⟩
      rw [← sees, visible, PageIndex.readPage_of_upTo upTo', PageIndex.readPage_of_upTo upTo]
      rfl

/-- Older snapshots see what they saw. -/
theorem Shows.of_advanced {pages : List RawPage} (shows_ : Shows engine version contents)
    (advanced : Advanced engine after pages) (old : version ≤ engine.mvcc.committed) :
    Shows after version contents :=
  shows_.of_pushAll (old.trans_lt advanced.newer) advanced.main advanced.index

/-- The state after a commit: its own pages, and the others as before. -/
theorem Shows.commit {order : List PageId} (shows_ : Shows engine engine.mvcc.committed contents)
    (sound : engine.Sound versions) (keyed : WriteTx.Keyed tx.pending)
    (advanced : Advanced engine after (WriteTx.values tx.pending order)) :
    Shows after after.mvcc.committed fun id =>
      match tx.pending.get? id with
      | some page => some page.data
      | none => contents id :=
  shows_.pushAll sound.upTo advanced.newer.le keyed advanced.main advanced.index

end StorageEngine

end Squrust.Core
