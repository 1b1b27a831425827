import Squrust.Core.Wal.Append

/-!
# Recovery after a crash

A crash may cut the log at any byte. Opening it then gives the state of the
longest prefix of the commits whose frames are all in the file, cuts the file
behind them, and opening the result gives the same state again
(`recovers_longest_prefix`), as long as nothing readable follows the last whole
frame. A tail alone can not tell: the rest of a frame cut in its middle and the
tail behind it may read as a frame that was never written
(`recovers_forged_frame`).
-/

set_option autoImplicit false

namespace Squrust.Core

open Squrust.Foundation

namespace WriteAheadLog

/-- One append: the pages of a transaction, its version and the size of the database after it. -/
structure Commit where
  frames : List WalFrame
  version : UInt64
  dbSize : UInt32
  /-- Every database has a first page. -/
  sized : dbSize ≠ 0

/-- The frames as they are written. -/
def Commit.stamped (commit : Commit) : List WalFrame :=
  stamp commit.version commit.dbSize commit.frames

/-- The frames of several commits. -/
def stampAll (commits : List Commit) : List WalFrame := (commits.map Commit.stamped).flatten

/-- Append commits one after the other. -/
def appendAll : List Commit → Exec WriteAheadLog StorageError Unit
  | [] => pure ()
  | commit :: rest => do
      appendCommit commit.frames commit.version commit.dbSize
      appendAll rest

/-- A new log beside a main file. -/
def fresh (main : Bytes) (initialDbSize : UInt32) : WriteAheadLog :=
  ⟨⟨main, [], none⟩, WalInner.fresh initialDbSize⟩

/-! ## What is in memory is in the file -/

/-- The file holds whole commits only and replays to what is in memory. -/
structure Intact (initialDbSize : UInt32) (log : WriteAheadLog) : Prop where
  unbounded : log.disk.left = none
  offset : log.inner.writeOffset = log.disk.log.length
  settled : Settled log.disk.log initialDbSize { log.inner with writeOffset := 0 }

theorem intact_fresh (main : Bytes) (initialDbSize : UInt32) :
    Intact initialDbSize (fresh main initialDbSize) :=
  ⟨rfl, rfl, settled_nil initialDbSize⟩

/-- Opening an intact log gives what was in memory. -/
theorem Intact.openLog_eq {initialDbSize : UInt32} {log : WriteAheadLog}
    (intact : Intact initialDbSize log) :
    openLog initialDbSize log.disk = .ok log.inner log.disk := by
  have opened : openLog initialDbSize ⟨log.disk.main, _, none⟩ = _ :=
    openLog_of_settled intact.settled .nil (by simp) (Or.inl (by decide : ([] : Bytes).length < frameSize))
  rw [List.append_nil, List.append_nil, ← intact.unbounded] at opened
  rw [opened, ← intact.offset]

/-- An append without failures. -/
theorem appendCommit_intact {initialDbSize : UInt32} {log : WriteAheadLog} (commit : Commit)
    (intact : Intact initialDbSize log) :
    ∃ after, appendCommit commit.frames commit.version commit.dbSize log = .ok () after ∧
      Intact initialDbSize after ∧ after.disk = { log.disk with
        log := log.disk.log ++ encodeAll commit.stamped } := by
  obtain ⟨⟨main, bytes, left⟩, inner⟩ := log
  obtain ⟨unbounded, offset, settled⟩ := intact
  simp only at unbounded offset settled
  subst unbounded
  by_cases nonempty : commit.frames = []
  · refine ⟨⟨⟨main, bytes, none⟩, inner⟩, ?_, ⟨rfl, offset, settled⟩, ?_⟩
    · rw [appendCommit, nonempty]
      rfl
    · simp [Commit.stamped, nonempty, stamp, encodeAll]
  · have done := @appendCommit_done commit.frames bytes [] main none commit.version commit.dbSize
      inner nonempty (by simp) offset
    rw [List.append_nil, List.drop_nil, List.append_nil] at done
    refine ⟨_, done, ⟨rfl, ?_, ?_⟩, rfl⟩
    · simp only [List.length_append, length_encodeAll, length_stamp]
    · exact settled.append nonempty commit.sized

theorem stampAll_cons (commit : Commit) (rest : List Commit) :
    stampAll (commit :: rest) = commit.stamped ++ stampAll rest := by
  rw [stampAll, List.map_cons, List.flatten_cons, ← stampAll]

/-- Appends without failures. -/
theorem appendAll_intact {initialDbSize : UInt32} {log : WriteAheadLog} (commits : List Commit)
    (intact : Intact initialDbSize log) :
    ∃ after, appendAll commits log = .ok () after ∧ Intact initialDbSize after ∧
      after.disk = { log.disk with log := log.disk.log ++ encodeAll (stampAll commits) } := by
  induction commits generalizing log with
  | nil => exact ⟨log, rfl, intact, by simp [stampAll, encodeAll]⟩
  | cons commit rest ih =>
      obtain ⟨between, appended, stillIntact, first⟩ := appendCommit_intact commit intact
      obtain ⟨after, later, finallyIntact, second⟩ := ih stillIntact
      refine ⟨after, Exec.bind_eq_ok.mpr ⟨(), between, appended, later⟩, finallyIntact, ?_⟩
      rw [second, first, stampAll_cons, encodeAll_append, List.append_assoc]

/-! ## Cut logs -/

/-- How many frames the commits have. -/
def frameCount (commits : List Commit) : Nat := (commits.map fun commit => commit.frames.length).sum

theorem length_stampAll (commits : List Commit) : (stampAll commits).length = frameCount commits := by
  induction commits with
  | nil => rfl
  | cons commit rest ih =>
      rw [stampAll_cons, List.length_append, ih, Commit.stamped, length_stamp, frameCount, frameCount,
        List.map_cons, List.sum_cons]

/-- The stamped frames short of the last one carry no mark. -/
theorem Commit.unmarked_take {commit : Commit} {count : Nat} (few : count < commit.frames.length) :
    ∀ frame ∈ commit.stamped.take count, frame.isCommit = false := by
  have nonempty : commit.frames ≠ [] := by
    intro none
    rw [none] at few
    simp at few
  obtain ⟨init, last, split, unmarked, -, -⟩ := stamp_eq commit.version commit.dbSize nonempty
  have size := length_stamp commit.version commit.dbSize commit.frames
  rw [split, List.length_append, List.length_singleton] at size
  rw [Commit.stamped, split, List.take_append_of_le_length (by omega)]
  exact fun frame among => unmarked frame (List.mem_of_mem_take among)

/-- Frames cut anywhere are whole commits and unmarked frames of the next one. -/
theorem exists_whole_commits (commits : List Commit) (count : Nat) :
    ∃ whole ≤ commits.length, ∃ waiting,
      (stampAll commits).take count = stampAll (commits.take whole) ++ waiting ∧
      (∀ frame ∈ waiting, frame.isCommit = false) ∧
      ∀ number ≤ commits.length, frameCount (commits.take number) ≤ count ↔ number ≤ whole := by
  induction commits generalizing count with
  | nil =>
      refine ⟨0, le_rfl, [], by simp [stampAll], by simp, fun number within => ?_⟩
      simp [frameCount]
      simpa using within
  | cons commit rest ih =>
      have size : commit.stamped.length = commit.frames.length := length_stamp _ _ _
      by_cases survives : commit.frames.length ≤ count
      · obtain ⟨whole, within, waiting, split, unmarked, longest⟩ := ih (count - commit.frames.length)
        refine ⟨whole + 1, Nat.succ_le_succ within, waiting, ?_, unmarked, ?_⟩
        · rw [stampAll_cons, List.take_append, size, split, List.take_succ_cons, stampAll_cons,
            List.append_assoc, List.take_of_length_le (by omega)]
        · intro number among
          cases number with
          | zero => simp [frameCount]
          | succ number =>
              rw [Nat.succ_le_succ_iff, ← longest number (Nat.le_of_succ_le_succ among),
                List.take_succ_cons, frameCount, List.map_cons, List.sum_cons, ← frameCount]
              omega
      · refine ⟨0, Nat.zero_le _, commit.stamped.take count, ?_, commit.unmarked_take (by omega), ?_⟩
        · rw [stampAll_cons, List.take_append_of_le_length (by omega)]
          rfl
        · intro number among
          cases number with
          | zero => simp [frameCount]
          | succ number =>
              rw [List.take_succ_cons, frameCount, List.map_cons, List.sum_cons]
              omega

/-- Opening the log, cut at a byte and followed by a tail, gives the state of the longest prefix
of the commits whose frames are in the file, cuts the file behind it, and once more so. -/
def RecoversPrefix (commits : List Commit) (main : Bytes) (initialDbSize : UInt32) (cut : Nat)
    (tail : Bytes) : Prop :=
  ∃ written, appendAll commits (fresh main initialDbSize) = .ok () written ∧
  ∃ whole ≤ commits.length,
    (∀ number ≤ commits.length,
      frameCount (commits.take number) * frameSize ≤ cut ↔ number ≤ whole) ∧
    ∃ kept, appendAll (commits.take whole) (fresh main initialDbSize) = .ok () kept ∧
      openLog initialDbSize { written.disk with log := written.disk.log.take cut ++ tail } =
        .ok kept.inner kept.disk ∧
      openLog initialDbSize kept.disk = .ok kept.inner kept.disk

/-- What follows the last whole frame of a log cut at a byte: the rest of a frame and the tail. -/
def torn (commits : List Commit) (cut : Nat) (tail : Bytes) : Bytes :=
  ((encodeAll (stampAll commits)).take cut).drop (cut / frameSize * frameSize) ++ tail

/-- A cut log: whole commits, unmarked frames of the next one, and what is torn. -/
theorem cut_split {commits : List Commit} {cut whole : Nat} {waiting : List WalFrame} (tail : Bytes)
    (split : (stampAll commits).take (cut / frameSize) = stampAll (commits.take whole) ++ waiting) :
    (encodeAll (stampAll commits)).take cut ++ tail =
      encodeAll (stampAll (commits.take whole)) ++ (encodeAll waiting ++ torn commits cut tail) := by
  have upTo : cut / frameSize * frameSize ≤ cut := Nat.div_mul_le_self cut frameSize
  have front : ((encodeAll (stampAll commits)).take cut).take (cut / frameSize * frameSize) =
      encodeAll (stampAll (commits.take whole)) ++ encodeAll waiting := by
    rw [List.take_take, Nat.min_eq_left upTo, encodeAll_take, split, encodeAll_append]
  rw [torn, ← List.append_assoc, ← List.append_assoc, ← front, List.take_append_drop]

/-- **Recovery.** -/
theorem recovers_longest_prefix (commits : List Commit) (main : Bytes) (initialDbSize : UInt32)
    (cut : Nat) (tail : Bytes) (unreadable : Unreadable (torn commits cut tail)) :
    RecoversPrefix commits main initialDbSize cut tail := by
  have start := intact_fresh main initialDbSize
  obtain ⟨written, appended, -, disk⟩ := appendAll_intact commits start
  obtain ⟨whole, within, waiting, split, unmarked, longest⟩ :=
    exists_whole_commits commits (cut / frameSize)
  obtain ⟨kept, keptAppended, intact, keptDisk⟩ := appendAll_intact (commits.take whole) start
  have positive : 0 < frameSize := by decide
  have keptLog : kept.disk = ⟨main, encodeAll (stampAll (commits.take whole)), none⟩ := keptDisk
  have offset := intact.offset
  refine ⟨written, appended, whole, within, ?_, kept, keptAppended, ?_, intact.openLog_eq⟩
  · intro number among
    rw [← longest number among, Nat.le_div_iff_mul_le positive]
  · have settled := intact.settled
    rw [keptLog] at settled offset
    have opened : openLog initialDbSize ⟨main, _, none⟩ = _ :=
      openLog_of_settled settled (holds_encodeAll waiting) unmarked unreadable
    rw [← cut_split tail split] at opened
    have crashed : { written.disk with log := written.disk.log.take cut ++ tail } =
        (⟨main, (encodeAll (stampAll commits)).take cut ++ tail, none⟩ : Disk) := by
      rw [disk]
      rfl
    rw [crashed, opened, keptLog, ← offset]

/-- A commit of page 2. -/
def pageTwo : Commit := ⟨[⟨2, 0, 0, WalInner.salt0, PageData.zero⟩], 1, 2, by decide⟩

theorem recovers_longest_prefix_pageTwo :
    Unreadable (torn [pageTwo] 100 [1]) ∧ RecoversPrefix [pageTwo] [] 1 100 [1] := by
  have unreadable : Unreadable (torn [pageTwo] 100 [1]) := by
    left
    rw [torn, List.length_append, List.length_drop, List.length_take, length_encodeAll]
    decide
  exact ⟨unreadable, recovers_longest_prefix [pageTwo] [] 1 100 [1] unreadable⟩

/-! ## A tail that completes a cut frame -/

/-- A frame for page 2 that no commit wrote. -/
def forged : WalFrame := ⟨2, 7, 9, WalInner.salt0, PageData.zero⟩

theorem take_encode (frame : WalFrame) : frame.encode.take 4 = bigEndian 4 frame.pageId.toNat := by
  rw [WalFrame.encode, WalFrame.headerPrefix, List.append_assoc, List.take_left' (length_bigEndian _ _)]

theorem settled_forged : Settled forged.encode 1 ((WalInner.fresh 1).enter [forged] 7 9) := by
  refine ⟨[forged], ?_, ?_⟩
  · have holds := holds_encodeAll [forged]
    rwa [encodeAll_cons, encodeAll, List.map_nil, List.flatten_nil, List.append_nil] at holds
  · rw [WalFrame.length_encode]
    rfl

/-- The first bytes of a frame of the log and a tail shorter than a frame read as a frame that was
never written. -/
theorem recovers_forged_frame :
    ¬ ∀ (commits : List Commit) (main : Bytes) (initialDbSize : UInt32) (cut : Nat) (tail : Bytes),
      (∀ commit ∈ commits, commit.frames ≠ []) → cut ≤ frameCount commits * frameSize →
      Unreadable tail → RecoversPrefix commits main initialDbSize cut tail := by
  intro recovers
  have short : Unreadable (forged.encode.drop 4) := by
    left
    rw [List.length_drop, WalFrame.length_encode]
    decide
  have nonempty : ∀ commit ∈ [pageTwo], commit.frames ≠ [] := by
    intro commit among
    rw [List.mem_singleton.mp among]
    exact List.cons_ne_nil _ _
  obtain ⟨written, appended, whole, within, longest, kept, keptAppended, opened, -⟩ :=
    recovers [pageTwo] [] 1 4 (forged.encode.drop 4) nonempty (by decide) short
  have whole_eq : whole = 0 := by
    have one := longest 1 (by decide)
    have torn : ¬ frameCount ([pageTwo].take 1) * frameSize ≤ 4 := by decide
    omega
  subst whole_eq
  have keptFresh : kept = fresh [] 1 := by
    cases keptAppended
    rfl
  obtain ⟨after, appended', -, disk⟩ := appendAll_intact [pageTwo] (intact_fresh [] 1)
  rw [appended] at appended'
  cases appended'
  have file : written.disk.log.take 4 ++ forged.encode.drop 4 = forged.encode ++ ([] ++ []) := by
    have sameId : written.disk.log.take 4 = forged.encode.take 4 := by
      rw [disk]
      change (encodeAll [⟨2, 1, 2, WalInner.salt0, PageData.zero⟩]).take 4 = _
      rw [encodeAll_cons, List.take_append_of_le_length (by rw [WalFrame.length_encode]; decide),
        take_encode, take_encode]
      rfl
    rw [sameId, List.take_append_drop, List.append_nil, List.append_nil]
  have forgedOpened : openLog 1 ⟨[], _, none⟩ = _ :=
    openLog_of_settled settled_forged .nil (by simp) (Or.inl (by decide : ([] : Bytes).length < frameSize))
  rw [← file] at forgedOpened
  have crashed : { written.disk with log := written.disk.log.take 4 ++ forged.encode.drop 4 } =
      (⟨[], written.disk.log.take 4 ++ forged.encode.drop 4, none⟩ : Disk) := by
    rw [disk]
    rfl
  rw [crashed, forgedOpened, keptFresh] at opened
  have sizes : (9 : UInt32) = 1 := congrArg (fun result => match result with
    | .ok inner _ => WalInner.dbSize inner
    | .error _ _ => 0) opened
  exact absurd sizes (by decide)

end WriteAheadLog

end Squrust.Core
