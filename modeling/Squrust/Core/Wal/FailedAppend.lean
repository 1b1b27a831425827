import Squrust.Core.Wal.Recovery

/-!
# Appends that fail

An append that fails leaves the frames it wrote behind the last good commit, and
the next append writes over them from the front. When it failed at the sync, the
last of its frames carries a commit mark. As long as this frame stays in the
file, opening the log reads it, with all pending frames before it, as a commit.

What follows the last good commit after any number of appends is computed from
the appends alone (`leftovers`). Opening recovers exactly the appends that got
through when none of these frames carries a mark (`recovers_iff_unmarked`), and
whether one does depends on how many frames the appends wrote
(`marked_leftovers_iff`).
-/

set_option autoImplicit false

namespace Squrust.Core

open Squrust.Foundation

namespace WriteAheadLog

/-- An append and how many of its calls that change the file succeed, if not all. -/
structure Attempt where
  commit : Commit
  left : Option Nat

namespace Attempt

/-- Run the append; whether it got through. -/
def run (attempt : Attempt) (log : WriteAheadLog) : WriteAheadLog × Bool :=
  match appendCommit attempt.commit.frames attempt.commit.version attempt.commit.dbSize
      { log with disk := { log.disk with left := attempt.left } } with
  | .ok _ after => ({ after with disk := { after.disk with left := none } }, true)
  | .error _ after => ({ after with disk := { after.disk with left := none } }, false)

/-- No frames are no work, and otherwise each frame and the sync is one call. -/
def getsThrough (attempt : Attempt) : Bool :=
  attempt.commit.frames.isEmpty || match attempt.left with
  | none => true
  | some budget => decide (attempt.commit.frames.length < budget)

/-- The frames an append that fails has written. -/
def written (attempt : Attempt) : Nat := attempt.left.getD 0

/-- All frames are written, the sync fails. -/
def failsAtSync (attempt : Attempt) : Bool :=
  !attempt.getsThrough && attempt.written == attempt.commit.frames.length

/-- The frames behind the last good commit after an append. -/
def leaves (attempt : Attempt) (leftover : List WalFrame) : List WalFrame :=
  if attempt.getsThrough then leftover.drop attempt.commit.frames.length
  else attempt.commit.stamped.take attempt.written ++ leftover.drop attempt.written

theorem written_le {attempt : Attempt} (fails : attempt.getsThrough = false) :
    attempt.left = some attempt.written ∧ attempt.commit.frames ≠ [] ∧
      attempt.written ≤ attempt.commit.frames.length := by
  rw [getsThrough, Bool.or_eq_false_iff] at fails
  obtain ⟨filled, few⟩ := fails
  cases budget : attempt.left with
  | none => simp [budget] at few
  | some budget =>
      rw [budget] at few
      refine ⟨?_, ?_, ?_⟩
      · rw [written, budget, Option.getD_some]
      · intro none
        rw [none] at filled
        exact Bool.noConfusion filled
      · rw [written, budget, Option.getD_some]
        simpa using few

end Attempt

/-- Run appends one after the other; the log and the commits that got through. -/
def attemptAll : List Attempt → WriteAheadLog → WriteAheadLog × List Commit
  | [], log => (log, [])
  | attempt :: rest, log =>
      let (between, through) := attempt.run log
      let (after, commits) := attemptAll rest between
      (after, if through then attempt.commit :: commits else commits)

/-- What follows the last good commit after appends. -/
def leftovers (attempts : List Attempt) (leftover : List WalFrame) : List WalFrame :=
  attempts.foldl (fun leftover attempt => attempt.leaves leftover) leftover

/-- Opening the log after the appends gives the state of those that got through, appended without
failures. -/
def RecoversThrough (attempts : List Attempt) (main : Bytes) (initialDbSize : UInt32) : Prop :=
  let (log, through) := attemptAll attempts (fresh main initialDbSize)
  ∃ inner disk expected, openLog initialDbSize log.disk = .ok inner disk ∧
    appendAll through (fresh main initialDbSize) = .ok () expected ∧ inner = expected.inner

/-! ## What appends leave in the file -/

/-- The log of an intact one with frames behind it. -/
def litter (log : WriteAheadLog) (leftover : List WalFrame) : WriteAheadLog :=
  { log with disk := { log.disk with log := log.disk.log ++ encodeAll leftover } }

/-- The frames from a number on. -/
theorem encodeAll_drop (frames : List WalFrame) (count : Nat) :
    (encodeAll frames).drop (count * frameSize) = encodeAll (frames.drop count) := by
  have split : encodeAll frames =
      encodeAll (frames.take count) ++ encodeAll (frames.drop count) := by
    rw [← encodeAll_append, List.take_append_drop]
  have front := encodeAll_take frames count
  have whole := List.take_append_drop (count * frameSize) (encodeAll frames)
  rw [front] at whole
  exact List.append_cancel_left (whole.trans split)

/-- One append over what earlier ones left. -/
theorem run_litter {initialDbSize : UInt32} {log : WriteAheadLog} (attempt : Attempt)
    (leftover : List WalFrame) (intact : Intact initialDbSize log) :
    ∃ after, Intact initialDbSize after ∧
      attempt.run (litter log leftover) =
        (litter after (attempt.leaves leftover), attempt.getsThrough) ∧
      if attempt.getsThrough then
        appendCommit attempt.commit.frames attempt.commit.version attempt.commit.dbSize log =
          .ok () after
      else after = log := by
  obtain ⟨⟨main, bytes, left⟩, inner⟩ := log
  obtain ⟨unbounded, offset, settled⟩ := intact
  simp only at unbounded offset settled
  subst unbounded
  cases through : attempt.getsThrough with
  | false =>
      obtain ⟨budget, nonempty, few⟩ := Attempt.written_le through
      have failed := @appendCommit_failed attempt.commit.frames bytes (encodeAll leftover) main
        attempt.commit.version attempt.commit.dbSize inner attempt.written nonempty few offset
      refine ⟨⟨⟨main, bytes, none⟩, inner⟩, ⟨rfl, offset, settled⟩, ?_, ?_⟩
      · rw [← budget, encodeAll_drop, ← encodeAll_append] at failed
        simp only [Attempt.run, litter, failed, Attempt.leaves, through]
        rfl
      · rw [if_neg Bool.false_ne_true]
  | true =>
      obtain ⟨after, appended, stillIntact, disk⟩ := appendCommit_intact attempt.commit
        (⟨rfl, offset, settled⟩ : Intact initialDbSize ⟨⟨main, bytes, none⟩, inner⟩)
      refine ⟨after, stillIntact, ?_, by rw [if_pos rfl]; exact appended⟩
      by_cases nonempty : attempt.commit.frames = []
      · rw [appendCommit, nonempty] at appended
        cases appended
        simp only [Attempt.run, appendCommit, litter, Attempt.leaves, through, nonempty,
          List.isEmpty_nil, if_true, List.length_nil, List.drop_zero]
        rfl
      · have enough : ∀ budget ∈ attempt.left, attempt.commit.frames.length < budget := by
          intro budget among
          rw [Attempt.getsThrough, Option.mem_def.mp among] at through
          simpa [nonempty] using through
        have clean := @appendCommit_done attempt.commit.frames bytes [] main none
          attempt.commit.version attempt.commit.dbSize inner nonempty (by simp) offset
        have done := @appendCommit_done attempt.commit.frames bytes (encodeAll leftover) main
          attempt.left attempt.commit.version attempt.commit.dbSize inner nonempty enough offset
        rw [List.append_nil, List.drop_nil, List.append_nil] at clean
        rw [clean] at appended
        cases appended
        rw [encodeAll_drop] at done
        simp only [Attempt.run, litter, done, Attempt.leaves, through, if_true, List.append_assoc,
          Option.map_none]

/-- Appends one after the other, over what earlier ones left. -/
theorem attemptAll_litter {initialDbSize : UInt32} {log : WriteAheadLog} (attempts : List Attempt)
    (leftover : List WalFrame) (intact : Intact initialDbSize log) :
    ∃ after through, Intact initialDbSize after ∧
      attemptAll attempts (litter log leftover) =
        (litter after (leftovers attempts leftover), through) ∧
      appendAll through log = .ok () after := by
  induction attempts generalizing log leftover with
  | nil => exact ⟨log, [], intact, rfl, rfl⟩
  | cons attempt rest ih =>
      obtain ⟨between, stillIntact, ran, appended⟩ := run_litter attempt leftover intact
      obtain ⟨after, through, finallyIntact, later, appendedLater⟩ :=
        ih (attempt.leaves leftover) stillIntact
      cases passes : attempt.getsThrough with
      | false =>
          rw [passes, if_neg Bool.false_ne_true] at appended
          subst appended
          refine ⟨after, through, finallyIntact, ?_, appendedLater⟩
          simp only [attemptAll, ran, later, passes, Bool.false_eq_true, if_false, leftovers,
            List.foldl_cons]
      | true =>
          rw [passes, if_pos rfl] at appended
          refine ⟨after, attempt.commit :: through, finallyIntact, ?_,
            Exec.bind_eq_ok.mpr ⟨(), between, appended, appendedLater⟩⟩
          simp only [attemptAll, ran, later, passes, if_true, leftovers, List.foldl_cons]

/-! ## What opening makes of it -/

/-- Reading a frame takes no version from a page. -/
theorem versions_read_le (state : Replay) (frame : WalFrame) (id : PageId) :
    (state.inner.index.versions id).length ≤ ((state.read frame).inner.index.versions id).length := by
  unfold Replay.read
  split
  · simp only [WalInner.enter, PageIndex.versions_pushAll, List.length_append]
    omega
  · exact le_rfl

theorem versions_readAll_le (frames : List WalFrame) (state : Replay) (id : PageId) :
    (state.inner.index.versions id).length ≤
      ((readAll frames state).inner.index.versions id).length := by
  induction frames generalizing state with
  | nil => exact le_rfl
  | cons frame rest ih => exact (versions_read_le state frame id).trans (ih _)

/-- A marked frame adds a version to its page. -/
theorem versions_readAll_lt {frames : List WalFrame} {frame : WalFrame} (among : frame ∈ frames)
    (marked : frame.isCommit = true) (state : Replay) :
    (state.inner.index.versions frame.pageId).length <
      ((readAll frames state).inner.index.versions frame.pageId).length := by
  obtain ⟨before, after, rfl⟩ := List.append_of_mem among
  rw [readAll_append, readAll_cons, read_marked marked]
  refine lt_of_le_of_lt (versions_readAll_le before state frame.pageId)
    (lt_of_lt_of_le ?_ (versions_readAll_le after _ frame.pageId))
  simp only [WalInner.enter, PageIndex.versions_pushAll, List.length_append, List.length_map,
    List.filter_append, List.filter_cons_of_pos, decide_true, List.length_cons]
  omega

/-- Opening recovers what got through when no frame left behind it carries a mark. -/
theorem recovers_iff_unmarked (attempts : List Attempt) (main : Bytes) (initialDbSize : UInt32) :
    RecoversThrough attempts main initialDbSize ↔
      ∀ frame ∈ leftovers attempts [], frame.isCommit = false := by
  obtain ⟨after, through, intact, ran, appended⟩ :=
    attemptAll_litter attempts [] (intact_fresh main initialDbSize)
  have begun : litter (fresh main initialDbSize) [] = fresh main initialDbSize := rfl
  rw [begun] at ran
  obtain ⟨whole, waiting, read, split, unmarked, reads, settled⟩ :=
    intact.settled.extend (leftovers attempts [])
  have opened : openLog initialDbSize ⟨after.disk.main, _, none⟩ = _ :=
    openLog_of_settled settled (holds_encodeAll waiting) unmarked
      (Or.inl (by decide : ([] : Bytes).length < frameSize))
  have file : (litter after (leftovers attempts [])).disk = ⟨after.disk.main,
      after.disk.log ++ encodeAll whole ++ (encodeAll waiting ++ []), none⟩ := by
    simp only [litter, split, encodeAll_append, intact.unbounded, List.append_nil, List.append_assoc]
  simp only [RecoversThrough, ran, file, opened, appended]
  constructor
  · rintro ⟨inner, disk, expected, openedEq, expectedEq, same⟩ frame among
    cases openedEq
    cases expectedEq
    cases mark : frame.isCommit with
    | false => rfl
    | true =>
        -- A mark adds a version to its page, so the index is not that of the commits.
        have inWhole : frame ∈ whole := by
          rw [split] at among
          rcases List.mem_append.mp among with front | back
          · exact front
          · exact absurd mark (by rw [unmarked frame back]; exact Bool.false_ne_true)
        have more := versions_readAll_lt inWhole mark
          ⟨{ after.inner with writeOffset := 0 }, after.disk.log.length, after.disk.log.length, []⟩
        rw [reads, ← congrArg WalInner.index same] at more
        exact absurd more (lt_irrefl _)
  · intro none
    have plain : ∀ frame ∈ whole, frame.isCommit = false := fun frame among =>
      none frame (by rw [split]; exact List.mem_append_left _ among)
    rw [readAll_unmarked plain] at reads
    have whole_eq : whole = [] := congrArg Replay.pending reads
    subst whole_eq
    have read_eq : { after.inner with writeOffset := 0 } = read := congrArg Replay.inner reads
    refine ⟨_, _, after, rfl, rfl, ?_⟩
    rw [← read_eq, encodeAll, List.map_nil, List.flatten_nil, List.append_nil, ← intact.offset]

/-! ## Which marks stay -/

/-- The frame at a distance behind the offset is not written over by the appends: one that gets
through moves the offset behind its frames, one that fails writes from the offset on. -/
def Stays : Nat → List Attempt → Prop
  | _, [] => True
  | place, attempt :: rest =>
      if attempt.getsThrough then
        attempt.commit.frames.length ≤ place ∧ Stays (place - attempt.commit.frames.length) rest
      else attempt.written ≤ place ∧ Stays place rest

/-- The appends that fail at the sync have their last frame written over later. -/
def MarksOverwritten : List Attempt → Prop
  | [] => True
  | attempt :: rest =>
      (attempt.failsAtSync → ¬ Stays (attempt.commit.frames.length - 1) rest) ∧
        MarksOverwritten rest

/-- The last of the stamped frames is the marked one. -/
theorem Commit.marked_iff {commit : Commit} {frame : WalFrame} {place : Nat}
    (here : commit.stamped[place]? = some frame) :
    frame.isCommit = true ↔ place + 1 = commit.frames.length := by
  have within : place < commit.frames.length := by
    obtain ⟨inStamped, -⟩ := List.getElem?_eq_some_iff.mp here
    rwa [Commit.stamped, length_stamp] at inStamped
  have nonempty : commit.frames ≠ [] := by
    intro none
    rw [none] at within
    simp at within
  obtain ⟨init, last, split, unmarked, -, ofSize⟩ := stamp_eq commit.version commit.dbSize nonempty
  have size := length_stamp commit.version commit.dbSize commit.frames
  rw [split, List.length_append, List.length_singleton] at size
  rw [Commit.stamped, split] at here
  by_cases inInit : place < init.length
  · rw [List.getElem?_append_left inInit] at here
    rw [unmarked frame (List.mem_of_getElem? here)]
    simp only [Bool.false_eq_true, false_iff]
    omega
  · have atEnd : place = init.length := by omega
    rw [atEnd, List.getElem?_concat_length] at here
    cases here
    rw [WalFrame.isCommit, ofSize, bne_iff_ne]
    exact iff_of_true commit.sized (by omega)

/-- A marked frame at a place. -/
def MarkedAt (frames : List WalFrame) (place : Nat) : Prop :=
  ∃ frame, frames[place]? = some frame ∧ frame.isCommit = true

theorem markedAt_drop {frames : List WalFrame} {count place : Nat} :
    MarkedAt (frames.drop count) place ↔ MarkedAt frames (count + place) := by
  simp only [MarkedAt, List.getElem?_drop]

/-- Marks after one append: those it did not write over, and its own when only the sync fails. -/
theorem markedAt_leaves {attempt : Attempt} {leftover : List WalFrame} {rest : List Attempt} :
    (∃ place, MarkedAt (attempt.leaves leftover) place ∧ Stays place rest) ↔
      (attempt.failsAtSync = true ∧ Stays (attempt.commit.frames.length - 1) rest) ∨
        ∃ place, MarkedAt leftover place ∧ Stays place (attempt :: rest) := by
  cases through : attempt.getsThrough with
  | true =>
      simp only [Attempt.leaves, Attempt.failsAtSync, Stays, through, if_true, Bool.not_true,
        Bool.false_and, Bool.false_eq_true, false_and, false_or, markedAt_drop]
      constructor
      · rintro ⟨place, marked, stays⟩
        refine ⟨_, marked, Nat.le_add_right _ _, ?_⟩
        rwa [Nat.add_sub_cancel_left]
      · rintro ⟨place, marked, within, stays⟩
        exact ⟨_, by rwa [Nat.add_sub_cancel' within], stays⟩
  | false =>
      obtain ⟨-, nonempty, few⟩ := Attempt.written_le through
      have front : (attempt.commit.stamped.take attempt.written).length = attempt.written := by
        rw [List.length_take, Commit.stamped, length_stamp, Nat.min_eq_left few]
      have own : ∀ place < attempt.written, (MarkedAt (attempt.leaves leftover) place ↔
          place + 1 = attempt.commit.frames.length) := by
        intro place inFront
        have inStamped : place < attempt.commit.stamped.length := by
          rw [Commit.stamped, length_stamp]
          omega
        rw [MarkedAt, Attempt.leaves, through, if_neg Bool.false_ne_true,
          List.getElem?_append_left (by rwa [front]), List.getElem?_take_of_lt inFront]
        constructor
        · rintro ⟨frame, here, marked⟩
          exact (Commit.marked_iff here).mp marked
        · intro last
          have here := List.getElem?_eq_getElem inStamped
          exact ⟨_, here, (Commit.marked_iff here).mpr last⟩
      have before : ∀ place, attempt.written ≤ place →
          (MarkedAt (attempt.leaves leftover) place ↔ MarkedAt leftover place) := by
        intro place past
        rw [MarkedAt, Attempt.leaves, through, if_neg Bool.false_ne_true,
          List.getElem?_append_right (by rwa [front]), front, List.getElem?_drop,
          Nat.add_sub_cancel' past, MarkedAt]
      simp only [Attempt.failsAtSync, Stays, through, Bool.not_false, Bool.true_and, beq_iff_eq,
        Bool.false_eq_true, if_false]
      constructor
      · rintro ⟨place, marked, stays⟩
        rcases Nat.lt_or_ge place attempt.written with inFront | past
        · have last := (own place inFront).mp marked
          exact Or.inl ⟨by omega, by rwa [← last, Nat.add_sub_cancel]⟩
        · exact Or.inr ⟨place, (before place past).mp marked, past, stays⟩
      · rintro (⟨whole, stays⟩ | ⟨place, marked, past, stays⟩)
        · have positive := List.length_pos_iff.mpr nonempty
          have last : attempt.commit.frames.length - 1 + 1 = attempt.commit.frames.length := by omega
          exact ⟨_, (own _ (by omega)).mpr last, stays⟩
        · exact ⟨place, (before place past).mpr marked, stays⟩

/-- A mark is left when one of those before stays, or when one of the appends leaves it. -/
theorem marked_leftovers_iff (attempts : List Attempt) (leftover : List WalFrame) :
    (∃ place, MarkedAt (leftovers attempts leftover) place) ↔
      (∃ place, MarkedAt leftover place ∧ Stays place attempts) ∨ ¬ MarksOverwritten attempts := by
  induction attempts generalizing leftover with
  | nil => simp [leftovers, Stays, MarksOverwritten]
  | cons attempt rest ih =>
      rw [leftovers, List.foldl_cons, ← leftovers, ih, markedAt_leaves, MarksOverwritten, not_and_or,
        Classical.not_imp, not_not, or_assoc, or_left_comm]

/-- **Failed appends.** -/
theorem recovers_iff_marksOverwritten (attempts : List Attempt) (main : Bytes)
    (initialDbSize : UInt32) :
    RecoversThrough attempts main initialDbSize ↔ MarksOverwritten attempts := by
  have marks := marked_leftovers_iff attempts []
  have none : ¬ ∃ place, MarkedAt [] place ∧ Stays place attempts := by
    rintro ⟨place, ⟨frame, here, -⟩, -⟩
    rw [List.getElem?_nil] at here
    cases here
  rw [or_iff_right none] at marks
  rw [recovers_iff_unmarked, ← not_iff_not, ← marks]
  constructor
  · intro some
    push Not at some
    obtain ⟨frame, among, marked⟩ := some
    obtain ⟨place, here⟩ := List.mem_iff_getElem?.mp among
    exact ⟨place, frame, here, by simpa using marked⟩
  · rintro ⟨place, frame, here, marked⟩ unmarked
    rw [unmarked frame (List.mem_of_getElem? here)] at marked
    exact Bool.noConfusion marked

/-- Two pages whose sync fails, and then one page that gets through: opening reads the second of the
two as a commit of its own. -/
def twoThenOne : List Attempt :=
  [⟨⟨[⟨2, 0, 0, WalInner.salt0, PageData.zero⟩, ⟨3, 0, 0, WalInner.salt0, PageData.zero⟩], 1, 3,
      by decide⟩, some 2⟩,
    ⟨pageTwo, none⟩]

theorem twoThenOne_not_recovered : ¬ RecoversThrough twoThenOne [] 1 := by
  rw [recovers_iff_unmarked]
  intro unmarked
  have left : leftovers twoThenOne [] = [⟨3, 1, 3, WalInner.salt0, PageData.zero⟩] := rfl
  have plain := unmarked ⟨3, 1, 3, WalInner.salt0, PageData.zero⟩ (by rw [left]; exact List.mem_singleton_self _)
  exact Bool.noConfusion plain

end WriteAheadLog

end Squrust.Core
