import Squrust.Core.Storage.Sound

/-!
# Checkpoints and opening

A checkpoint runs only when every reader is pinned to the committed version.
Then all of them see the last version of every page, which is what the main file
has after the fold (`Shows.folded`). Some pages written already are no harm
either, as long as the log is there (`visible_writeAll`).

Opening reads the log of any database whose header is valid
(`openInner_of_openFile`), and gives an engine in order.
-/

set_option autoImplicit false

namespace Squrust.Core

open Squrust.Foundation

namespace StorageEngine

/-! ## The pages of the log -/

theorem mem_lastVersions {index : PageIndex} {id : PageId} {data : PageData} :
    (id, data) ∈ lastVersions index ↔
      (index.versions id).getLast?.map Prod.snd = some data := by
  rw [lastVersions, List.mem_filterMap]
  constructor
  · rintro ⟨entry, among, last⟩
    obtain ⟨newest, isLast, same⟩ := Option.map_eq_some_iff.mp last
    cases same
    have here := FiniteMap.get?_eq_some_iff.mpr among
    rw [PageIndex.versions, here, Option.getD_some, isLast]
    rfl
  · intro last
    obtain ⟨newest, isLast, rfl⟩ := Option.map_eq_some_iff.mp last
    cases here : FiniteMap.get? index id with
    | none =>
        rw [PageIndex.versions, here, Option.getD_none, List.getLast?_nil] at isLast
        cases isLast
    | some versions =>
        rw [PageIndex.versions, here, Option.getD_some] at isLast
        exact ⟨(id, versions), FiniteMap.get?_eq_some_iff.mp here, by simp [isLast]⟩

/-- Their ids are ascending. -/
theorem ascending_lastVersions (index : PageIndex) : Ascending (lastVersions index) := by
  refine List.Pairwise.filterMap _ ?_ index.ascending
  intro first second before page isPage page' isPage'
  obtain ⟨newest, -, rfl⟩ := Option.map_eq_some_iff.mp isPage
  obtain ⟨newest', -, rfl⟩ := Option.map_eq_some_iff.mp isPage'
  exact before

theorem nodup_lastVersions (index : PageIndex) : ((lastVersions index).map Prod.fst).Nodup := by
  rw [List.Nodup, List.pairwise_map]
  exact (ascending_lastVersions index).imp fun before => before.ne

/-- What a snapshot that sees all versions sees of a page of the log. -/
theorem visible_of_mem {index : PageIndex} {main : Bytes} {version : TransactionId} {id : PageId}
    {data : PageData} (upTo : index.UpTo version) (among : (id, data) ∈ lastVersions index) :
    visible index main version id = some data := by
  rw [visible, PageIndex.readPage_of_upTo upTo, mem_lastVersions.mp among]

/-- What it sees of the other pages. -/
theorem visible_of_notMem {index : PageIndex} {main : Bytes} {version : TransactionId} {id : PageId}
    (upTo : index.UpTo version) (absent : ∀ page ∈ lastVersions index, page.1 ≠ id) :
    visible index main version id = pageAt main id := by
  rw [visible, PageIndex.readPage_of_upTo upTo]
  cases last : (index.versions id).getLast?.map Prod.snd with
  | none => rfl
  | some data => exact absurd rfl (absent (id, data) (mem_lastVersions.mpr last))

/-! ## Folding -/

/-- Any of the pages of the log in the main file, with the log still there. -/
theorem visible_writeAll {index : PageIndex} {main : Bytes} {version : TransactionId} {id : PageId}
    {data : PageData} (upTo : index.UpTo version) (real : ∀ page ∈ lastVersions index, page.1 ≠ 0)
    (count : Nat) (sees : visible index main version id = some data) :
    visible index (writeAll ((lastVersions index).take count) main) version id = some data := by
  by_cases among : ∃ found, (id, found) ∈ lastVersions index
  · obtain ⟨found, among⟩ := among
    rw [visible_of_mem upTo among] at sees ⊢
    exact sees
  · have absent : ∀ page ∈ lastVersions index, page.1 ≠ id := by
      rintro ⟨other, found⟩ member rfl
      exact among ⟨found, member⟩
    rw [visible_of_notMem upTo absent] at sees ⊢
    exact pageAt_writeAll_of_notMem (fun page member => real page (List.mem_of_mem_take member))
      (fun page member => absent page (List.mem_of_mem_take member)) sees

/-- All pages of the log in the main file, and the log is not needed any more. -/
theorem pageAt_writeAll_lastVersions {index : PageIndex} {main : Bytes} {version : TransactionId}
    {id : PageId} {data : PageData} (upTo : index.UpTo version)
    (real : ∀ page ∈ lastVersions index, page.1 ≠ 0)
    (sees : visible index main version id = some data) :
    pageAt (writeAll (lastVersions index) main) id = some data := by
  by_cases among : ∃ found, (id, found) ∈ lastVersions index
  · obtain ⟨found, among⟩ := among
    rw [visible_of_mem upTo among] at sees
    cases sees
    exact pageAt_writeAll real (nodup_lastVersions index) among
  · have absent : ∀ page ∈ lastVersions index, page.1 ≠ id := by
      rintro ⟨other, found⟩ member rfl
      exact among ⟨found, member⟩
    rw [visible_of_notMem upTo absent] at sees
    exact pageAt_writeAll_of_notMem real absent sees

/-- A header over page 1 changes no content. -/
theorem pageAt_putHeader {inner : WalInner} {main : Bytes} {id : PageId} {data : PageData}
    (here : pageAt main id = some data) :
    ∃ found, pageAt (putHeader inner main) id = some found ∧ body id found = body id data := by
  by_cases first : id = 1
  · subst first
    refine ⟨_, pageAt_pwrite_self (by decide), ?_⟩
    rw [here, Option.getD_some, body_writeInto]
  · exact ⟨data, pageAt_pwrite_of_ne (by decide) first here, rfl⟩

/-- The header is valid then. -/
theorem valid_putHeader (inner : WalInner) (main : Bytes) :
    ∃ first, pageAt (putHeader inner main) 1 = some first ∧ DbHeader.Valid first.val :=
  ⟨_, pageAt_pwrite_self (by decide), DbHeader.valid_bytes _ _ rfl⟩

variable {engine : StorageEngine} {versions : List TransactionId} {contents : Contents}

/-- Page 0 can not be written, and it is the first that would be. -/
theorem foldLog_zero {page : PageId × PageData} (some : engine.wal.index.isEmpty = false)
    (among : page ∈ lastVersions engine.wal.index) (zero : page.1 = 0) :
    foldLog engine = .error (.panic "attempt to subtract with overflow") engine := by
  have ascending := ascending_lastVersions engine.wal.index
  have begun : foldLog engine =
      (writePages (lastVersions engine.wal.index) >>= fun _ => resetLog engine.wal) engine := by
    rw [foldLog]
    refine (Exec.bind_of_ok rfl).trans ?_
    simp only [some, Bool.false_eq_true, if_false]
  rw [begun]
  cases pages : lastVersions engine.wal.index with
  | nil =>
      rw [pages] at among
      cases among
  | cons first rest =>
      rw [pages] at among ascending
      have front : first.1 = 0 := by
        rcases List.mem_cons.mp among with rfl | later
        · exact zero
        · have below := (List.pairwise_cons.mp ascending).1 page later
          rw [zero, UInt32.lt_iff_toNat_lt] at below
          exact absurd below (Nat.not_lt_zero _)
      obtain ⟨id, data⟩ := first
      simp only at front
      subst front
      refine Exec.bind_of_error ?_
      rw [writePages]
      exact Exec.bind_of_error (onDisk_of_error rfl)

theorem checkpoint_eq (engine : StorageEngine) :
    checkpoint engine = (if engine.mvcc.oldestRequiredVersion < engine.mvcc.currentVersion then
      return () else foldLog : Exec StorageEngine StorageError Unit) engine := by
  rw [checkpoint]
  exact Exec.bind_of_ok rfl

/-- A log without pages is not folded. -/
theorem foldLog_of_isEmpty (empty : engine.wal.index.isEmpty = true) :
    foldLog engine = .ok () engine := by
  rw [foldLog]
  refine (Exec.bind_of_ok rfl).trans ?_
  simp only [empty, if_true]
  rfl

/-- A fold without failures does all or nothing. -/
theorem reached_foldLog (unbounded : engine.disk.left = none) :
    Exec.reached foldLog engine = engine ∨
      (∀ page ∈ lastVersions engine.wal.index, page.1 ≠ 0) ∧
        Exec.reached foldLog engine = engine.folded := by
  cases empty : engine.wal.index.isEmpty with
  | true => exact Or.inl (Exec.reached_of_ok (foldLog_of_isEmpty empty))
  | false =>
      by_cases zero : ∃ page ∈ lastVersions engine.wal.index, page.1 = 0
      · obtain ⟨page, among, zero⟩ := zero
        exact Or.inl (Exec.reached_of_error (foldLog_zero empty among zero))
      · push Not at zero
        exact Or.inr ⟨zero, Exec.reached_of_ok (foldLog_done empty zero unbounded)⟩

/-- A page that is still cached was not written. -/
theorem lookup_invalidateAll {pages : List (PageId × PageData)} {cache : PageCache} {id : PageId}
    {page : RawPage} (cached : (invalidateAll pages cache).map.get? id = some page) :
    cache.map.get? id = some page ∧ ∀ written ∈ pages, written.1 ≠ id := by
  induction pages generalizing cache with
  | nil => exact ⟨cached, by simp⟩
  | cons first rest ih =>
      obtain ⟨before, absent⟩ := ih cached
      obtain ⟨different, earlier⟩ := PageCache.lookup_invalidate before
      refine ⟨earlier, fun written among => ?_⟩
      rcases List.mem_cons.mp among with rfl | later
      · exact different.symm
      · exact absent written later

theorem mirrors_folded (mirrors : Mirrors engine.cache engine.disk.main)
    (real : ∀ page ∈ lastVersions engine.wal.index, page.1 ≠ 0) :
    Mirrors engine.folded.cache engine.folded.disk.main := by
  intro id page cached
  obtain ⟨before, absent⟩ := lookup_invalidateAll cached
  obtain ⟨named, data, inFile, same⟩ := mirrors id page before
  obtain ⟨found, inFolded, sameBody⟩ :=
    @pageAt_putHeader engine.wal _ _ _ (pageAt_writeAll_of_notMem real absent inFile)
  exact ⟨named, found, inFolded, same.trans sameBody.symm⟩

/-- A fold keeps an engine in order. -/
theorem Sound.folded (sound : engine.Sound versions)
    (real : ∀ page ∈ lastVersions engine.wal.index, page.1 ≠ 0) :
    engine.folded.Sound versions where
  unbounded := rfl
  mirrors := mirrors_folded sound.mirrors real
  upTo := by
    intro id entry among
    cases among
  counts := sound.counts
  pinned := sound.pinned
  offset := rfl
  replays size := ⟨_, WriteAheadLog.settled_nil size, rfl⟩
  header := valid_putHeader _ _
  pages := sound.pages

/-- Who saw all versions sees the same in the folded main file. -/
theorem Shows.folded {version : TransactionId} (shows_ : Shows engine version contents)
    (upTo : engine.wal.index.UpTo version)
    (real : ∀ page ∈ lastVersions engine.wal.index, page.1 ≠ 0) :
    Shows engine.folded version contents := by
  intro id data known
  obtain ⟨found, sees, same⟩ := shows_ id data known
  obtain ⟨headed, inFolded, sameBody⟩ :=
    @pageAt_putHeader engine.wal _ _ _ (pageAt_writeAll_lastVersions upTo real sees)
  exact ⟨headed, inFolded, sameBody.trans same⟩

/-- What a checkpoint leaves alone, whether it returns or not. -/
structure Checkpointed (before after : StorageEngine) (versions : List TransactionId) : Prop where
  sound : after.Sound versions
  mvcc : after.mvcc = before.mvcc
  gate : after.gate = before.gate
  shows_ : ∀ version contents, version ∈ versions ∨ version = before.mvcc.committed →
    Shows before version contents → Shows after version contents

/-- A checkpoint keeps an engine in order and all snapshots as they were. -/
theorem Sound.checkpoint (sound : engine.Sound versions) :
    Checkpointed engine (Exec.reached StorageEngine.checkpoint engine) versions := by
  have unchanged : Checkpointed engine engine versions :=
    ⟨sound, rfl, rfl, fun version contents required shows_ => shows_⟩
  have begun := checkpoint_eq engine
  by_cases lagging : engine.mvcc.oldestRequiredVersion < engine.mvcc.currentVersion
  · rw [if_pos lagging] at begun
    rw [Exec.reached_of_ok begun]
    exact unchanged
  · rw [if_neg lagging] at begun
    -- No reader is older than the committed version.
    have current : ∀ version, version ∈ versions ∨ version = engine.mvcc.committed →
        version = engine.mvcc.committed := by
      rintro version (among | same)
      · have oldest := MvccManager.oldestRequired_le sound.counts among
        exact le_antisymm (sound.pinned version among) ((not_lt.mp lagging).trans oldest)
      · exact same
    have same : Exec.reached StorageEngine.checkpoint engine = Exec.reached foldLog engine := by
      simp only [Exec.reached, begun]
    rw [same]
    rcases reached_foldLog sound.unbounded with stays | ⟨real, folds⟩
    · rw [stays]
      exact unchanged
    · rw [folds]
      refine ⟨sound.folded real, rfl, rfl, fun version contents required shows_ => ?_⟩
      rw [current version required] at shows_ ⊢
      exact shows_.folded sound.upTo real

/-! ## Opening -/

/-- No version that replay reads is newer than the newest one it reports. -/
theorem upTo_readAll {frames : List WalFrame} {state : WriteAheadLog.Replay}
    (upTo : state.inner.index.UpTo state.inner.maxVersion) :
    (WriteAheadLog.readAll frames state).inner.index.UpTo
      (WriteAheadLog.readAll frames state).inner.maxVersion := by
  induction frames generalizing state with
  | nil => exact upTo
  | cons frame rest ih =>
      refine ih ?_
      unfold WriteAheadLog.Replay.read
      split
      · intro id entry among
        simp only [WalInner.enter, PageIndex.versions_pushAll, List.mem_append, List.mem_map] at among
        rcases among with old | ⟨_, -, rfl⟩
        · exact (upTo id entry old).trans (le_max_left _ _)
        · exact le_max_right _ _
      · exact upTo

theorem upTo_of_settled {bytes : Bytes} {size : UInt32} {inner : WalInner}
    (settled : WriteAheadLog.Settled bytes size inner) : inner.index.UpTo inner.maxVersion := by
  obtain ⟨frames, -, reads⟩ := settled
  have begun : (WriteAheadLog.Replay.start (WalInner.fresh size)).inner.index.UpTo
      (WriteAheadLog.Replay.start (WalInner.fresh size)).inner.maxVersion := by
    intro id entry among
    cases among
  have upTo := @upTo_readAll frames _ begun
  rwa [reads] at upTo

/-- A file with a valid header is opened as it is. -/
theorem openFile_of_valid {disk : Disk} {first : PageData} (here : pageAt disk.main 1 = some first)
    (valid : DbHeader.Valid first.val) : ∃ header, DatabaseFile.openFile disk = .ok header disk := by
  obtain ⟨-, found⟩ := pageAt_eq_some.mp here
  obtain ⟨header, parsed⟩ := DbHeader.readFrom_ok_iff.mpr valid
  have front : pageOffset 1 = 0 := rfl
  rw [front] at found
  have filled : disk.main.length ≠ 0 := by
    intro empty
    rw [pread, empty] at found
    cases found
  refine ⟨header, ?_⟩
  rw [DatabaseFile.openFile]
  refine (Exec.bind_of_ok rfl).trans ?_
  simp only [filled, if_false, found, parsed]
  rfl

/-- A file whose header is not valid is not opened. -/
theorem openFile_of_invalid {disk : Disk} {first : PageData} (here : pageAt disk.main 1 = some first)
    (invalid : ¬ DbHeader.Valid first.val) :
    ∀ header after, DatabaseFile.openFile disk ≠ .ok header after := by
  intro header after opened
  obtain ⟨-, found⟩ := pageAt_eq_some.mp here
  have front : pageOffset 1 = 0 := rfl
  rw [front] at found
  have filled : disk.main.length ≠ 0 := by
    intro empty
    rw [pread, empty] at found
    cases found
  rw [DatabaseFile.openFile, Exec.bind_eq_ok] at opened
  obtain ⟨_, _, got, rest⟩ := opened
  cases got
  simp only [filled, if_false, found, Exec.lift_eq_ok] at rest
  exact invalid (DbHeader.readFrom_ok_iff.mp ⟨header, rest.1⟩)

/-- Page 1 of a new file. -/
def firstPage : PageData :=
  match Node.emptyLeaf.serializeInto ⟨1, DbHeader.default.writeInto PageData.zero⟩ with
  | .ok page => page.data
  | .error _ => PageData.zero

theorem serialize_firstPage :
    Node.emptyLeaf.serializeInto ⟨1, DbHeader.default.writeInto PageData.zero⟩ = .ok ⟨1, firstPage⟩ := by
  have serialized : (match Node.emptyLeaf.serializeInto
      ⟨1, DbHeader.default.writeInto PageData.zero⟩ with
      | .ok page => page.id == 1
      | .error _ => false) = true := by decide +kernel
  unfold firstPage
  split at serialized
  · next page done =>
    rw [done, ← beq_iff_eq.mp serialized]
  · exact Bool.noConfusion serialized

theorem valid_firstPage : DbHeader.Valid firstPage.val := by decide +kernel

/-- A new file is initialised. -/
theorem openFile_of_empty {disk : Disk} (unbounded : disk.left = none) (empty : disk.main = []) :
    DatabaseFile.openFile disk =
      .ok DbHeader.default { disk with main := firstPage.val } := by
  have initialised : DatabaseFile.init DbHeader.default disk =
      .ok () { disk with main := firstPage.val } := by
    rw [DatabaseFile.init, serialize_firstPage, Exec.lift_ok_bind]
    refine (Exec.bind_of_ok (Disk.writeMain_ok unbounded)).trans ?_
    have grown : pwrite disk.main 0 firstPage.val = firstPage.val := by
      rw [empty]
      simp [pwrite]
    rw [grown]
    exact Disk.syncAll_ok unbounded
  rw [DatabaseFile.openFile]
  refine (Exec.bind_of_ok rfl).trans ?_
  simp only [empty, List.length_nil, if_true]
  exact Exec.bind_of_ok initialised

/-- A database is opened when its main file is; the engine is in order. -/
theorem openInner_of_openFile {disk : Disk} {header : DbHeader} {main : Bytes}
    (unbounded : disk.left = none)
    (opened : DatabaseFile.openFile disk = .ok header { disk with main })
    (valid : ∃ first, pageAt main 1 = some first ∧ DbHeader.Valid first.val) :
    ∃ engine, openInner disk = .ok engine engine.disk ∧ engine.Sound [] ∧ engine.disk.main = main ∧
      ∀ index, Replays disk.log index → engine.wal.index = index := by
  obtain ⟨kept, rest, inner, split, settled, logOpened⟩ :=
    @WriteAheadLog.openLog_ok header.dbSizePages { disk with main } unbounded
  have upTo : inner.index.UpTo inner.maxVersion := upTo_of_settled settled
  refine ⟨?engine, ?ran, ?facts⟩
  case ran =>
    rw [openInner]
    refine (Exec.bind_of_ok opened).trans ?_
    refine (Exec.bind_of_ok logOpened).trans ?_
    refine (Exec.bind_of_ok (pageCount_eq _)).trans ?_
    refine (Exec.bind_of_ok rfl).trans ?_
    exact rfl
  refine ⟨⟨unbounded, ?_, upTo, MvccManager.counts_new _, by simp, rfl, ?_, valid, ?_⟩, rfl, ?_⟩
  · intro id page cached
    cases cached
  · intro size
    exact settled.resize size
  · intro zero
    have one : (1 : UInt32) ≤ 0 := by
      rw [← zero]
      exact le_max_right _ _
    exact absurd one (by decide)
  · intro index replays
    obtain ⟨inner', settled', rfl⟩ := replays header.dbSizePages
    have again : WriteAheadLog.openLog header.dbSizePages ⟨main, _, none⟩ = _ :=
      WriteAheadLog.openLog_of_settled settled' .nil (by simp)
        (Or.inl (by decide : ([] : Bytes).length < frameSize))
    rw [List.append_nil, List.append_nil, ← unbounded] at again
    have same := logOpened.symm.trans again
    obtain ⟨inners, -⟩ := EStateM.Result.ok.inj same
    have indices := congrArg WalInner.index inners
    exact indices

/-- The main file after opening: a new file has its first page, an old one stays. -/
def openedMain (main : Bytes) : Bytes := if main = [] then firstPage.val else main

/-- What opens is in order, on the main file as opening leaves it. -/
theorem openInner_facts {disk after : Disk} {engine : StorageEngine} (unbounded : disk.left = none)
    (opened : openInner disk = .ok engine after) :
    engine.Sound [] ∧ engine.disk.main = openedMain disk.main := by
  have unique : ∀ {engine' : StorageEngine}, openInner disk = .ok engine' engine'.disk →
      engine'.Sound [] → engine'.disk.main = openedMain disk.main →
        engine.Sound [] ∧ engine.disk.main = openedMain disk.main := by
    intro engine' opened' sound main
    obtain ⟨rfl, -⟩ := EStateM.Result.ok.inj (opened.symm.trans opened')
    exact ⟨sound, main⟩
  by_cases empty : disk.main = []
  · obtain ⟨engine', opened', sound, main, -⟩ := openInner_of_openFile unbounded
      (openFile_of_empty unbounded empty) ⟨firstPage, pageAt_one firstPage, valid_firstPage⟩
    exact unique opened' sound (main.trans (if_pos empty).symm)
  · rw [openInner, Exec.bind_eq_ok] at opened
    obtain ⟨header, between, fileOpened, -⟩ := opened
    have filled : disk.main.length ≠ 0 := fun none => empty (List.length_eq_zero_iff.mp none)
    have found : ∃ first, pageAt disk.main 1 = some first := by
      have front : pageOffset 1 = 0 := rfl
      rw [DatabaseFile.openFile, Exec.bind_eq_ok] at fileOpened
      obtain ⟨_, _, got, rest⟩ := fileOpened
      cases got
      simp only [filled, if_false] at rest
      cases read : pread disk.main 0 pageSize with
      | none => simp [read] at rest
      | some bytes =>
          rw [← front] at read
          exact ⟨⟨bytes, length_of_pread read⟩, pageAt_eq_some.mpr ⟨by decide, read⟩⟩
    obtain ⟨first, here⟩ := found
    by_cases valid : DbHeader.Valid first.val
    · obtain ⟨header', fileOpened'⟩ := openFile_of_valid here valid
      obtain ⟨engine', opened', sound, main, -⟩ :=
        openInner_of_openFile unbounded fileOpened' ⟨first, here, valid⟩
      exact unique opened' sound (main.trans (if_neg empty).symm)
    · exact absurd fileOpened (openFile_of_invalid here valid header between)

/-- **Opening.** What opens is in order. -/
theorem openInner_sound {disk after : Disk} {engine : StorageEngine} (unbounded : disk.left = none)
    (opened : openInner disk = .ok engine after) : engine.Sound [] :=
  (openInner_facts unbounded opened).1

end StorageEngine

end Squrust.Core
