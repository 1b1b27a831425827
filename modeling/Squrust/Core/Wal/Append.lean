import Squrust.Core.Wal.Replay

/-!
# Appending commits

What an append leaves behind, whether it gets through or fails. The frames it
wrote stand behind the last good commit, over whatever was there before; only an
append that got through moves the offset and enters its pages into the index
(`appendCommit_done`, `appendCommit_failed`). A log to which commits were
appended without failures replays to what it has in memory (`Intact`).
-/

set_option autoImplicit false

namespace Squrust.Core

open Squrust.Foundation

namespace WriteAheadLog

theorem encodeAll_cons (frame : WalFrame) (frames : List WalFrame) :
    encodeAll (frame :: frames) = frame.encode ++ encodeAll frames := by
  rw [encodeAll, List.map_cons, List.flatten_cons, ← encodeAll]

theorem encodeAll_append (first second : List WalFrame) :
    encodeAll (first ++ second) = encodeAll first ++ encodeAll second := by
  simp [encodeAll]

theorem length_encodeAll (frames : List WalFrame) :
    (encodeAll frames).length = frames.length * frameSize :=
  (holds_encodeAll frames).length_eq

theorem encodeAll_take (frames : List WalFrame) (count : Nat) :
    (encodeAll frames).take (count * frameSize) = encodeAll (frames.take count) := by
  induction frames generalizing count with
  | nil => simp [encodeAll]
  | cons frame rest ih =>
      cases count with
      | zero => simp [encodeAll]
      | succ count =>
          have size : (count + 1) * frameSize = frame.encode.length + count * frameSize := by
            rw [WalFrame.length_encode]
            ring
          rw [encodeAll_cons, size, List.take_length_add_append, ih, List.take_succ_cons,
            encodeAll_cons]

/-! ## One append -/

variable {frames : List WalFrame} {kept rest main : Bytes} {left : Option Nat}

/-- One frame over what followed the offset. -/
theorem writeFrames_cons {frame : WalFrame} (enough : ∀ budget ∈ left, 1 ≤ budget) :
    writeFrames (frame :: frames) kept.length ⟨main, kept ++ rest, left⟩ =
      writeFrames frames (kept ++ frame.encode).length
        ⟨main, (kept ++ frame.encode) ++ rest.drop frameSize, left.map (· - 1)⟩ := by
  have written : Disk.writeLog kept.length frame.encode ⟨main, kept ++ rest, left⟩ =
      .ok () ⟨main, (kept ++ frame.encode) ++ rest.drop frameSize, left.map (· - 1)⟩ := by
    rw [Disk.writeLog, Disk.change_ok enough, pwrite_append rfl, WalFrame.length_encode]
  rw [writeFrames, Exec.bind_of_ok written, List.length_append, WalFrame.length_encode]

/-- All frames are written. -/
theorem writeFrames_done (enough : ∀ budget ∈ left, frames.length ≤ budget) :
    writeFrames frames kept.length ⟨main, kept ++ rest, left⟩ =
      .ok (kept.length + frames.length * frameSize)
        ⟨main, kept ++ (encodeAll frames ++ rest.drop (frames.length * frameSize)),
          left.map (· - frames.length)⟩ := by
  induction frames generalizing kept rest left with
  | nil => cases left <;> simp [writeFrames, encodeAll]
  | cons frame frames ih =>
      have first : ∀ budget ∈ left, 1 ≤ budget := fun budget among => by
        have := enough budget among
        rw [List.length_cons] at this
        omega
      have later : ∀ budget ∈ left.map (· - 1), frames.length ≤ budget := by
        intro budget among
        obtain ⟨before, was, rfl⟩ := Option.mem_map.mp among
        have := enough before was
        rw [List.length_cons] at this
        omega
      rw [writeFrames_cons first, ih later, encodeAll_cons, List.drop_drop, List.length_cons,
        Option.map_map, List.length_append, WalFrame.length_encode]
      congr 1
      · ring
      · congr 1
        · simp only [List.append_assoc]
          congr 4
          ring
        · congr 1
          funext budget
          simp only [Function.comp_apply]
          omega

/-- A write fails: the frames before it are written. -/
theorem writeFrames_failed {budget : Nat} (few : budget < frames.length) :
    writeFrames frames kept.length ⟨main, kept ++ rest, some budget⟩ =
      .error (.error (.io "write failed"))
        ⟨main, kept ++ (encodeAll (frames.take budget) ++ rest.drop (budget * frameSize)),
          some 0⟩ := by
  induction frames generalizing kept rest budget with
  | nil => simp at few
  | cons frame frames ih =>
      cases budget with
      | zero =>
          simp only [writeFrames, List.take_zero, encodeAll, List.map_nil, List.flatten_nil,
            List.nil_append, Nat.zero_mul, List.drop_zero]
          rfl
      | succ budget =>
          rw [List.length_cons] at few
          have first : ∀ left ∈ some (budget + 1), 1 ≤ left := by simp
          rw [writeFrames_cons first, Option.map_some, Nat.add_sub_cancel, ih (by omega),
            List.take_succ_cons, encodeAll_cons, List.drop_drop]
          congr 2
          simp only [List.append_assoc]
          congr 4
          ring

variable {version : UInt64} {dbSize : UInt32} {inner : WalInner}

/-- An append that got through. -/
theorem appendCommit_done (nonempty : frames ≠ []) (enough : ∀ budget ∈ left, frames.length < budget)
    (start : inner.writeOffset = kept.length) :
    appendCommit frames version dbSize ⟨⟨main, kept ++ rest, left⟩, inner⟩ =
      .ok () ⟨⟨main, kept ++ (encodeAll (stamp version dbSize frames) ++
          rest.drop (frames.length * frameSize)), left.map (· - (frames.length + 1))⟩,
        { inner.enter (stamp version dbSize frames) version dbSize with
          writeOffset := kept.length + frames.length * frameSize }⟩ := by
  have written := @writeFrames_done (stamp version dbSize frames) kept rest main left
    (fun budget among => by
      rw [length_stamp]
      exact (enough budget among).le)
  rw [length_stamp] at written
  have filled : frames.isEmpty = false := by
    cases frames with
    | nil => exact absurd rfl nonempty
    | cons frame frames => rfl
  have synced : ∀ budget ∈ left.map (· - frames.length), 1 ≤ budget := by
    intro budget among
    obtain ⟨before, was, rfl⟩ := Option.mem_map.mp among
    have := enough before was
    omega
  rw [appendCommit, filled, if_neg Bool.false_ne_true]
  refine (Exec.bind_of_ok rfl).trans ?_
  rw [start]
  refine (Exec.bind_of_ok (onDisk_of_ok written)).trans ?_
  refine (Exec.bind_of_ok (onDisk_of_ok (Disk.change_ok synced))).trans ?_
  have spent : (left.map (· - frames.length)).map (· - 1) = left.map (· - (frames.length + 1)) := by
    rw [Option.map_map]
    congr 1
  rw [← spent]
  rfl

/-- An append that failed: the frames written so far stand behind the last good commit, and
nothing else has changed. -/
theorem appendCommit_failed {budget : Nat} (nonempty : frames ≠ []) (few : budget ≤ frames.length)
    (start : inner.writeOffset = kept.length) :
    appendCommit frames version dbSize ⟨⟨main, kept ++ rest, some budget⟩, inner⟩ =
      .error (.error (.io "write failed"))
        ⟨⟨main, kept ++ (encodeAll ((stamp version dbSize frames).take budget) ++
          rest.drop (budget * frameSize)), some 0⟩, inner⟩ := by
  have filled : frames.isEmpty = false := by
    cases frames with
    | nil => exact absurd rfl nonempty
    | cons frame frames => rfl
  rw [appendCommit, filled, if_neg Bool.false_ne_true]
  refine (Exec.bind_of_ok rfl).trans ?_
  rw [start]
  rcases few.lt_or_eq with inFrames | rfl
  · rw [← length_stamp version dbSize frames] at inFrames
    exact Exec.bind_of_error (onDisk_of_error (writeFrames_failed inFrames))
  · have all : ∀ budget ∈ some frames.length, (stamp version dbSize frames).length ≤ budget := by
      simp
    have written := @writeFrames_done (stamp version dbSize frames) kept rest main _ all
    rw [length_stamp, Option.map_some, Nat.sub_self] at written
    refine (Exec.bind_of_ok (onDisk_of_ok written)).trans ?_
    rw [List.take_of_length_le (length_stamp version dbSize frames).le]
    exact Exec.bind_of_error (onDisk_of_error (Disk.change_of_zero rfl))

end WriteAheadLog

end Squrust.Core
