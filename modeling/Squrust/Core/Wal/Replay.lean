import Mathlib.Data.List.Induction
import Squrust.Core.Wal.Log

/-!
# What replay reads

The bytes of a log hold a list of frames when they are blocks that decode to
these frames (`Holds`). The loop of the replay reads the frames the log holds
and stops at the first block that is none (`Replay.loop_holds`), so what it
rebuilds is a fold over frames (`readAll`), and this fold takes a commit in one
step (`readAll_stamp`). Frames read behind the last commit mark change nothing
but the list of pending ones (`readAll_unmarked`).
-/

set_option autoImplicit false

namespace Squrust.Core

open Squrust.Foundation

namespace WriteAheadLog

/-! ## Bytes and frames -/

/-- The bytes are blocks that decode to the frames. -/
inductive Holds : Bytes → List WalFrame → Prop where
  | nil : Holds [] []
  | cons {block rest : Bytes} {frame : WalFrame} {frames : List WalFrame}
      (size : block.length = frameSize) (decodes : WalFrame.decode block = .ok frame)
      (later : Holds rest frames) : Holds (block ++ rest) (frame :: frames)

/-- Nothing of the bytes is read: they are shorter than a frame, or their first block is none. -/
def Unreadable (bytes : Bytes) : Prop :=
  bytes.length < frameSize ∨ ∀ frame, WalFrame.decode (bytes.take frameSize) ≠ .ok frame

/-- The frames in the order of the file. -/
def encodeAll (frames : List WalFrame) : Bytes := (frames.map WalFrame.encode).flatten

namespace Holds

variable {bytes bytes' : Bytes} {frames frames' : List WalFrame}

theorem length_eq (holds : Holds bytes frames) : bytes.length = frames.length * frameSize := by
  induction holds with
  | nil => rw [List.length_nil, List.length_nil, Nat.zero_mul]
  | cons size _ _ ih => rw [List.length_append, List.length_cons, size, ih, Nat.succ_mul, Nat.add_comm]

theorem append (holds : Holds bytes frames) (holds' : Holds bytes' frames') :
    Holds (bytes ++ bytes') (frames ++ frames') := by
  induction holds with
  | nil => exact holds'
  | cons size decodes _ ih =>
      rw [List.append_assoc]
      exact cons size decodes ih

/-- Whole blocks taken from the front hold the frames taken from the front. -/
theorem take (holds : Holds bytes frames) (count : Nat) :
    Holds (bytes.take (count * frameSize)) (frames.take count) := by
  induction holds generalizing count with
  | nil => simpa using Holds.nil
  | @cons block rest frame frames size decodes later ih =>
      cases count with
      | zero => simpa using Holds.nil
      | succ count =>
          have cut : (block ++ rest).take ((count + 1) * frameSize) =
              block ++ rest.take (count * frameSize) := by
            rw [Nat.succ_mul, Nat.add_comm, ← size, List.take_length_add_append]
          rw [cut, List.take_succ_cons]
          exact cons size decodes (ih count)

theorem drop (holds : Holds bytes frames) (count : Nat) :
    Holds (bytes.drop (count * frameSize)) (frames.drop count) := by
  induction holds generalizing count with
  | nil => simpa using Holds.nil
  | @cons block rest frame frames size decodes later ih =>
      cases count with
      | zero => simpa using cons size decodes later
      | succ count =>
          have cut : (block ++ rest).drop ((count + 1) * frameSize) =
              rest.drop (count * frameSize) := by
            rw [Nat.succ_mul, Nat.add_comm, ← size, List.drop_length_add_append]
          rw [cut, List.drop_succ_cons]
          exact ih count

end Holds

theorem decode_encode (frame : WalFrame) : WalFrame.decode frame.encode = .ok frame := by
  have := WalFrame.decode_encode frame []
  rwa [List.append_nil] at this

theorem holds_encodeAll (frames : List WalFrame) : Holds (encodeAll frames) frames := by
  induction frames with
  | nil => exact .nil
  | cons frame rest ih =>
      rw [encodeAll, List.map_cons, List.flatten_cons]
      exact .cons (WalFrame.length_encode frame) (decode_encode frame) ih

/-- Every file is the frames it holds and something unreadable. -/
theorem exists_holds (file : Bytes) :
    ∃ bytes rest frames, file = bytes ++ rest ∧ Holds bytes frames ∧ Unreadable rest := by
  induction size : file.length using Nat.strong_induction_on generalizing file with
  | _ length ih =>
      by_cases short : file.length < frameSize
      · exact ⟨[], file, [], rfl, .nil, Or.inl short⟩
      · by_cases readable : ∃ frame, WalFrame.decode (file.take frameSize) = .ok frame
        · obtain ⟨frame, decodes⟩ := readable
          have blockSize : (file.take frameSize).length = frameSize := by
            rw [List.length_take]
            omega
          have positive : 0 < frameSize := by decide
          have smaller : (file.drop frameSize).length < length := by
            rw [List.length_drop]
            omega
          obtain ⟨bytes, rest, frames, split, holds, unreadable⟩ := ih _ smaller _ rfl
          refine ⟨file.take frameSize ++ bytes, rest, frame :: frames, ?_,
            .cons blockSize decodes holds, unreadable⟩
          rw [List.append_assoc, ← split, List.take_append_drop]
        · exact ⟨[], file, [], rfl, .nil, Or.inr fun frame decodes => readable ⟨frame, decodes⟩⟩

/-! ## The loop is a fold over the frames -/

/-- Read frames one after the other. -/
def readAll (frames : List WalFrame) (state : Replay) : Replay := frames.foldl Replay.read state

@[simp] theorem readAll_nil (state : Replay) : readAll [] state = state := rfl

theorem readAll_cons (frame : WalFrame) (frames : List WalFrame) (state : Replay) :
    readAll (frame :: frames) state = readAll frames (state.read frame) := rfl

theorem readAll_append (first second : List WalFrame) (state : Replay) :
    readAll (first ++ second) state = readAll second (readAll first state) :=
  List.foldl_append

@[simp] theorem offset_read (state : Replay) (frame : WalFrame) :
    (state.read frame).offset = state.offset + frameSize := by
  unfold Replay.read
  split
  · rfl
  · rfl

/-- Behind what the loop has read, it reads the frames the file holds there. -/
theorem Replay.loop_holds {before bytes rest : Bytes} {frames : List WalFrame} {rounds : Nat}
    {state : Replay} (holds : Holds bytes frames) (unreadable : Unreadable rest)
    (start : before.length = state.offset) (enough : frames.length ≤ rounds) :
    Replay.loop (before ++ (bytes ++ rest)) rounds state = readAll frames state := by
  induction holds generalizing before rounds state with
  | nil =>
      cases rounds with
      | zero => rfl
      | succ rounds =>
          rw [Replay.loop, ← start, List.drop_left, List.nil_append, List.length_append]
          rcases unreadable with short | broken
          · rw [if_neg (by omega)]
            rfl
          · cases decodes : WalFrame.decode (rest.take frameSize) with
            | ok frame => exact absurd decodes (broken frame)
            | error fault =>
                split
                · rfl
                · rfl
  | @cons block later frame frames size decodes holds ih =>
      obtain ⟨rounds, rfl⟩ : ∃ left, rounds = left + 1 := by
        cases rounds with
        | zero => simp at enough
        | succ left => exact ⟨left, rfl⟩
      have inFile : state.offset + frameSize ≤ (before ++ (block ++ later ++ rest)).length := by
        simp only [List.length_append]
        omega
      have block_eq : ((before ++ (block ++ later ++ rest)).drop state.offset).take frameSize =
          block := by
        rw [← start, List.drop_left, List.append_assoc, List.take_left' size]
      rw [Replay.loop, if_pos inFile, block_eq, decodes, readAll_cons]
      have reached : (before ++ block).length = (state.read frame).offset := by
        rw [List.length_append, size, start, offset_read]
      have left : frames.length ≤ rounds := by
        rw [List.length_cons] at enough
        omega
      rw [← ih reached left]
      simp only [List.append_assoc]

/-- There are rounds enough for the frames of the file. -/
theorem replayed {bytes rest : Bytes} {frames : List WalFrame} (holds : Holds bytes frames)
    (unreadable : Unreadable rest) (inner : WalInner) :
    Replay.loop (bytes ++ rest) ((bytes ++ rest).length / frameSize) (Replay.start inner) =
      readAll frames (Replay.start inner) := by
  have enough : frames.length ≤ (bytes ++ rest).length / frameSize := by
    have positive : 0 < frameSize := by decide
    rw [Nat.le_div_iff_mul_le positive, List.length_append, holds.length_eq]
    omega
  have front : ([] : Bytes).length = (Replay.start inner).offset := rfl
  exact Replay.loop_holds holds unreadable front enough

/-! ## The fold over a commit -/

/-- Frames without a commit mark wait. -/
theorem readAll_unmarked {frames : List WalFrame} {state : Replay}
    (unmarked : ∀ frame ∈ frames, frame.isCommit = false) :
    readAll frames state = { state with
      offset := state.offset + frames.length * frameSize, pending := state.pending ++ frames } := by
  induction frames generalizing state with
  | nil => simp
  | cons frame rest ih =>
      have plain := unmarked frame List.mem_cons_self
      have step : state.read frame = { state with
          offset := state.offset + frameSize, pending := state.pending ++ [frame] } := by
        simp only [Replay.read, plain, Bool.false_eq_true, if_false]
      rw [readAll_cons, step, ih fun other among => unmarked other (List.mem_cons_of_mem _ among)]
      simp only [List.append_assoc, List.cons_append, List.nil_append, List.length_cons, Replay.mk.injEq,
        true_and, and_true]
      ring

theorem offset_readAll (frames : List WalFrame) (state : Replay) :
    (readAll frames state).offset = state.offset + frames.length * frameSize := by
  induction frames generalizing state with
  | nil => simp
  | cons frame rest ih =>
      rw [readAll_cons, ih, offset_read, List.length_cons]
      ring

/-- A commit mark leaves nothing pending. -/
theorem read_marked {state : Replay} {frame : WalFrame} (marked : frame.isCommit = true) :
    state.read frame = ⟨state.inner.enter (state.pending ++ [frame]) frame.commitVersion
      frame.dbSizeAfter, state.offset + frameSize, state.offset + frameSize, []⟩ := by
  simp only [Replay.read, marked, if_true]

/-- The frames up to the last commit mark, and those behind it. -/
theorem exists_marked_prefix (frames : List WalFrame) (inner : WalInner) (offset : Nat) :
    ∃ whole waiting read, frames = whole ++ waiting ∧ (∀ frame ∈ waiting, frame.isCommit = false) ∧
      readAll whole ⟨inner, offset, offset, []⟩ =
        ⟨read, offset + whole.length * frameSize, offset + whole.length * frameSize, []⟩ := by
  induction frames using List.reverseRecOn with
  | nil => exact ⟨[], [], inner, rfl, by simp, by simp⟩
  | append_singleton frames frame ih =>
      obtain ⟨whole, waiting, read, rfl, unmarked, reads⟩ := ih
      cases mark : frame.isCommit with
      | false =>
          refine ⟨whole, waiting ++ [frame], read, List.append_assoc _ _ _, ?_, reads⟩
          intro other among
          rcases List.mem_append.mp among with before | last
          · exact unmarked other before
          · rw [List.mem_singleton.mp last, mark]
      | true =>
          have reached := offset_readAll (whole ++ waiting) ⟨inner, offset, offset, []⟩
          have closed :=
            @read_marked (readAll (whole ++ waiting) ⟨inner, offset, offset, []⟩) frame mark
          rw [reached] at closed
          refine ⟨whole ++ waiting ++ [frame], [],
            (readAll (whole ++ waiting ++ [frame]) ⟨inner, offset, offset, []⟩).inner,
            (List.append_nil _).symm, by simp, ?_⟩
          have count : offset + (whole ++ waiting ++ [frame]).length * frameSize =
              offset + (whole ++ waiting).length * frameSize + frameSize := by
            rw [@List.length_append _ _ [frame], List.length_singleton]
            ring
          rw [count, readAll_append (whole ++ waiting), readAll_cons, readAll_nil, closed]

/-! ## Stamped frames -/

/-- Only the last of the stamped frames is marked. -/
theorem stamp_eq {frames : List WalFrame} (version : UInt64) (dbSize : UInt32)
    (some : frames ≠ []) :
    ∃ init last, stamp version dbSize frames = init ++ [last] ∧
      (∀ frame ∈ init, frame.isCommit = false) ∧ last.commitVersion = version ∧
      last.dbSizeAfter = dbSize := by
  induction frames with
  | nil => exact absurd rfl some
  | cons frame rest ih =>
      cases rest with
      | nil => exact ⟨[], _, rfl, by simp, rfl, rfl⟩
      | cons next rest =>
          obtain ⟨init, last, split, unmarked, ofVersion, ofSize⟩ := ih (List.cons_ne_nil _ _)
          refine ⟨{ frame with commitVersion := version, dbSizeAfter := 0 } :: init, last, ?_, ?_,
            ofVersion, ofSize⟩
          · rw [stamp, split, List.cons_append]
          · intro other among
            rcases List.mem_cons.mp among with rfl | later
            · rfl
            · exact unmarked other later

@[simp] theorem length_stamp (version : UInt64) (dbSize : UInt32) (frames : List WalFrame) :
    (stamp version dbSize frames).length = frames.length := by
  induction frames with
  | nil => rfl
  | cons frame rest ih =>
      cases rest with
      | nil => rfl
      | cons next rest => rw [stamp, List.length_cons, ih, List.length_cons, List.length_cons, List.length_cons]

/-- The loop takes a commit in one step. -/
theorem readAll_stamp {frames : List WalFrame} {version : UInt64} {dbSize : UInt32} {state : Replay}
    (some : frames ≠ []) (sized : dbSize ≠ 0) (settled : state.pending = []) :
    readAll (stamp version dbSize frames) state =
      ⟨state.inner.enter (stamp version dbSize frames) version dbSize,
        state.offset + frames.length * frameSize, state.offset + frames.length * frameSize, []⟩ := by
  obtain ⟨init, last, split, unmarked, ofVersion, ofSize⟩ := stamp_eq version dbSize some
  have marked : last.isCommit = true := by
    rw [WalFrame.isCommit, ofSize, bne_iff_ne]
    exact sized
  have count : frames.length = init.length + 1 := by
    rw [← length_stamp version dbSize frames, split, List.length_append, List.length_singleton]
  rw [split, readAll_append, readAll_unmarked unmarked, readAll_cons, readAll_nil,
    read_marked marked, settled, List.nil_append, ofVersion, ofSize, count]
  simp only [Replay.mk.injEq, true_and, and_true, and_self]
  ring

/-! ## Logs that replay to a state -/

/-- The bytes are whole commits, and a log of them replays to the given state. -/
def Settled (bytes : Bytes) (initialDbSize : UInt32) (inner : WalInner) : Prop :=
  ∃ frames, Holds bytes frames ∧ readAll frames (Replay.start (WalInner.fresh initialDbSize)) =
    ⟨inner, bytes.length, bytes.length, []⟩

theorem settled_nil (initialDbSize : UInt32) : Settled [] initialDbSize (WalInner.fresh initialDbSize) :=
  ⟨[], .nil, rfl⟩

/-- What is read does not depend on the size the log starts with, up to the size itself. -/
theorem readAll_resize (frames : List WalFrame) (state : Replay) (size : UInt32) :
    ∃ size', readAll frames { state with inner := { state.inner with dbSize := size } } =
      { readAll frames state with inner := { (readAll frames state).inner with dbSize := size' } } := by
  induction frames generalizing state size with
  | nil => exact ⟨size, rfl⟩
  | cons frame rest ih =>
      cases mark : frame.isCommit with
      | false =>
          have step : ({ state with inner := { state.inner with dbSize := size } } : Replay).read frame =
              { state.read frame with
                inner := { (state.read frame).inner with dbSize := size } } := by
            simp only [Replay.read, mark, Bool.false_eq_true, if_false]
          rw [readAll_cons, readAll_cons, step]
          exact ih _ _
      | true =>
          have step : ({ state with inner := { state.inner with dbSize := size } } : Replay).read frame =
              { state.read frame with
                inner := { (state.read frame).inner with dbSize := (state.read frame).inner.dbSize } } := by
            simp only [Replay.read, mark, if_true, WalInner.enter]
          rw [readAll_cons, readAll_cons, step]
          exact ih _ _

/-- The size the log starts with is read only when no frame carries a mark. -/
theorem readAll_marked {frames : List WalFrame} (state : Replay) (size : UInt32)
    (marked : ¬ ∀ frame ∈ frames, frame.isCommit = false) :
    readAll frames { state with inner := { state.inner with dbSize := size } } =
      readAll frames state := by
  induction frames generalizing state with
  | nil => exact absurd (fun frame among => by cases among) marked
  | cons frame rest ih =>
      cases mark : frame.isCommit with
      | false =>
          have step : ({ state with inner := { state.inner with dbSize := size } } : Replay).read frame =
              { state.read frame with
                inner := { (state.read frame).inner with dbSize := size } } := by
            simp only [Replay.read, mark, Bool.false_eq_true, if_false]
          rw [readAll_cons, readAll_cons, step]
          refine ih _ fun unmarked => marked fun other among => ?_
          rcases List.mem_cons.mp among with rfl | later
          · exact mark
          · exact unmarked other later
      | true =>
          rw [readAll_cons, readAll_cons]
          simp only [Replay.read, mark, if_true, WalInner.enter]

/-- Whole commits name the size of the last one, if there is one. -/
theorem Settled.sized {bytes : Bytes} {initialDbSize : UInt32} {inner : WalInner}
    (settled : Settled bytes initialDbSize inner) :
    bytes = [] ∧ inner = WalInner.fresh initialDbSize ∨ ∀ size, Settled bytes size inner := by
  obtain ⟨frames, holds, reads⟩ := settled
  by_cases unmarked : ∀ frame ∈ frames, frame.isCommit = false
  · left
    rw [readAll_unmarked unmarked] at reads
    have none : frames = [] := congrArg Replay.pending reads
    subst none
    cases holds
    exact ⟨rfl, (congrArg Replay.inner reads).symm⟩
  · refine Or.inr fun size => ⟨frames, holds, ?_⟩
    rw [← reads, ← readAll_marked (Replay.start (WalInner.fresh initialDbSize)) size unmarked]
    rfl

theorem Settled.resize {bytes : Bytes} {initialDbSize : UInt32} {inner : WalInner}
    (settled : Settled bytes initialDbSize inner) (size : UInt32) :
    ∃ inner', Settled bytes size inner' ∧ inner'.index = inner.index := by
  obtain ⟨frames, holds, reads⟩ := settled
  obtain ⟨size', resized⟩ := readAll_resize frames
    (Replay.start (WalInner.fresh initialDbSize)) size
  rw [reads] at resized
  exact ⟨_, ⟨frames, holds, resized⟩, rfl⟩

/-- A commit behind whole commits. -/
theorem Settled.append {bytes : Bytes} {initialDbSize dbSize : UInt32} {inner : WalInner}
    {frames : List WalFrame} {version : UInt64} (settled : Settled bytes initialDbSize inner)
    (some : frames ≠ []) (sized : dbSize ≠ 0) :
    Settled (bytes ++ encodeAll (stamp version dbSize frames)) initialDbSize
      (inner.enter (stamp version dbSize frames) version dbSize) := by
  obtain ⟨held, holds, reads⟩ := settled
  have added := holds_encodeAll (stamp version dbSize frames)
  refine ⟨held ++ stamp version dbSize frames, holds.append added, ?_⟩
  rw [readAll_append, reads, readAll_stamp some sized rfl, List.length_append, added.length_eq,
    length_stamp]

/-- One commit alone; the size the log starts with does not matter. -/
theorem settled_stamp {dbSize : UInt32} {frames : List WalFrame} {version : UInt64}
    (some : frames ≠ []) (sized : dbSize ≠ 0) (size : UInt32) :
    Settled (encodeAll (stamp version dbSize frames)) size
      ((WalInner.fresh 0).enter (stamp version dbSize frames) version dbSize) := by
  have first : Settled ([] ++ encodeAll (stamp version dbSize frames)) size
      ((WalInner.fresh size).enter (stamp version dbSize frames) version dbSize) :=
    (settled_nil size).append some sized
  exact first

/-- **Replay.** A log of whole commits, frames without a commit mark and something unreadable
replays to the state of the whole commits and is cut behind them. -/
theorem openLog_of_settled {bytes waiting rest : Bytes} {frames : List WalFrame}
    {initialDbSize : UInt32} {inner : WalInner} {main : Bytes}
    (settled : Settled bytes initialDbSize inner) (holds : Holds waiting frames)
    (unmarked : ∀ frame ∈ frames, frame.isCommit = false) (unreadable : Unreadable rest) :
    openLog initialDbSize ⟨main, bytes ++ (waiting ++ rest), none⟩ =
      .ok { inner with writeOffset := bytes.length } ⟨main, bytes, none⟩ := by
  obtain ⟨held, heldHolds, reads⟩ := settled
  have looped := replayed (heldHolds.append holds) unreadable (WalInner.fresh initialDbSize)
  rw [readAll_append, reads, readAll_unmarked unmarked, List.append_assoc] at looped
  rw [openLog, replay, Exec.bind_eq_ok]
  refine ⟨_, _, rfl, ?_⟩
  simp only [looped]
  split
  · have within : bytes.length ≤ (bytes ++ (waiting ++ rest)).length := by
      rw [List.length_append]
      omega
    have cut : setLen (bytes ++ (waiting ++ rest)) bytes.length = bytes := by
      rw [setLen_of_le within, List.take_left]
    refine Exec.bind_eq_ok.mpr ⟨(), _, Disk.setLenLog_ok rfl, ?_⟩
    simp only [cut]
    rfl
  · next whole =>
    have nothing : waiting ++ rest = [] := by
      rw [ne_eq, not_not, List.length_append] at whole
      exact List.length_eq_zero_iff.mp (by omega)
    rw [nothing, List.append_nil]
    rfl

/-- Frames behind whole commits: those up to the last mark are read too. -/
theorem Settled.extend {bytes : Bytes} {initialDbSize : UInt32} {inner : WalInner}
    (settled : Settled bytes initialDbSize inner) (frames : List WalFrame) :
    ∃ whole waiting read, frames = whole ++ waiting ∧ (∀ frame ∈ waiting, frame.isCommit = false) ∧
      readAll whole ⟨inner, bytes.length, bytes.length, []⟩ =
        ⟨read, bytes.length + whole.length * frameSize,
          bytes.length + whole.length * frameSize, []⟩ ∧
      Settled (bytes ++ encodeAll whole) initialDbSize read := by
  obtain ⟨whole, waiting, read, split, unmarked, reads⟩ :=
    exists_marked_prefix frames inner bytes.length
  obtain ⟨held, holds, before⟩ := settled
  have added := holds_encodeAll whole
  refine ⟨whole, waiting, read, split, unmarked, reads, held ++ whole, holds.append added, ?_⟩
  rw [readAll_append, before, reads, List.length_append, added.length_eq]

/-- Opening finds the whole commits of any log. -/
theorem openLog_ok (initialDbSize : UInt32) {disk : Disk} (unbounded : disk.left = none) :
    ∃ kept rest inner, disk.log = kept ++ rest ∧ Settled kept initialDbSize inner ∧
      openLog initialDbSize disk =
        .ok { inner with writeOffset := kept.length } { disk with log := kept } := by
  obtain ⟨bytes, rest, frames, split, holds, unreadable⟩ := exists_holds disk.log
  obtain ⟨whole, waiting, read, rfl, unmarked, reads⟩ :=
    exists_marked_prefix frames (WalInner.fresh initialDbSize) 0
  have front := holds.take whole.length
  have back := holds.drop whole.length
  rw [List.take_left] at front
  rw [List.drop_left] at back
  have settled : Settled (bytes.take (whole.length * frameSize)) initialDbSize read := by
    refine ⟨whole, front, ?_⟩
    rw [front.length_eq, ← Nat.zero_add (whole.length * frameSize)]
    exact reads
  refine ⟨bytes.take (whole.length * frameSize), bytes.drop (whole.length * frameSize) ++ rest, read,
    ?_, settled, ?_⟩
  · rw [split, ← List.append_assoc, List.take_append_drop]
  · have opened : openLog initialDbSize ⟨disk.main, _, none⟩ = _ :=
      openLog_of_settled settled back unmarked unreadable
    rw [← List.append_assoc, List.take_append_drop, ← split, ← unbounded] at opened
    exact opened

end WriteAheadLog

end Squrust.Core
