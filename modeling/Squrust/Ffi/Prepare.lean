import Squrust.Foundation.LossyUtf8
import Squrust.Ffi.Routing

/-!
# The tail of a prepared text

`sqlite3_prepare_v2` reads all of its text, and the tail it stores is behind it. The
offset is the length of the text as it was read, where every piece of the bytes that is
no character has become the three bytes of U+FFFD. So the tail is inside the text, or at
its end, exactly if those pieces have three bytes themselves, or the limit that the
caller gave is reached before the terminator (`tailWithin_iff`).
-/

set_option autoImplicit false

namespace Squrust.Ffi

open Squrust.Foundation

open Sql (Pragma)

/-- The bytes before the terminator, `CStr::to_bytes`. -/
def untilNul (bytes : Bytes) : Bytes := bytes.takeWhile (· ≠ 0)

/-- The bytes of a C string from its memory: up to the terminator, and to `nbyte` unless that is
negative. -/
def cBytes (memory : Bytes) (nbyte : Int32) : Bytes :=
  if nbyte < 0 then untilNul memory
  else untilNul (memory.take nbyte.toInt.toNat)

/-- `c_to_string`; a null pointer has no memory. -/
def cToString (ptr : Option Bytes) (nbyte : Int32) : Option Text :=
  ptr.map fun memory => Text.fromUtf8Lossy (cBytes memory nbyte)

section

variable {Statement : Type} (planner : Planner Statement)

/-- The text is a pragma, or it parses. -/
def accepts (text : Text) : Bool := (Pragma.tryParse text).isSome || (planner.parse text).isSome

/-- A length, or `nbyte` if that is smaller and not negative. -/
def atMost (nbyte : Int32) (length : Nat) : Nat :=
  if nbyte < 0 then length else min nbyte.toInt.toNat length

/-- `sqlite3_prepare_v2`: the offset of the tail it stores, if the text is accepted. -/
def prepareV2 (sql : Option Bytes) (nbyte : Int32) : Option Nat :=
  let text := (cToString sql nbyte).getD []
  if accepts planner text then some (atMost nbyte (Text.toUtf8 text).length) else none

/-- How many bytes the caller's text has, up to the terminator and to `nbyte`. -/
def inputLength (sql : Option Bytes) (nbyte : Int32) : Nat :=
  atMost nbyte ((sql.map untilNul).getD []).length

/-- The tail is not behind the text of the caller. -/
def TailWithin (sql : Option Bytes) (nbyte : Int32) : Prop :=
  ∀ offset, prepareV2 planner sql nbyte = some offset → offset ≤ inputLength sql nbyte

/-- What is no character in the text has three bytes a piece, unless the limit comes before the
terminator. -/
def KeepsLength (memory : Bytes) (nbyte : Int32) : Prop :=
  0 ≤ nbyte ∧ nbyte.toInt ≤ (untilNul memory).length ∨
    ∀ piece ∈ Text.pieces (cBytes memory nbyte), piece.2 = false → piece.1 = 3

variable {planner}

theorem length_untilNul_take (memory : Bytes) (limit : Nat) :
    (untilNul (memory.take limit)).length = min limit (untilNul memory).length := by
  induction memory generalizing limit with
  | nil => simp [untilNul]
  | cons b rest ih =>
      cases limit with
      | zero => simp [untilNul]
      | succ limit =>
          rw [List.take_succ_cons, untilNul, untilNul, List.takeWhile_cons, List.takeWhile_cons]
          split
          · rw [List.length_cons, List.length_cons]
            exact (congrArg Nat.succ (ih limit)).trans (Nat.succ_min_succ _ _).symm
          · simp

/-- The text that is read has the bytes of the caller's. -/
theorem length_cBytes (memory : Bytes) (nbyte : Int32) :
    (cBytes memory nbyte).length = atMost nbyte (untilNul memory).length := by
  rw [cBytes, atMost]
  split
  · rfl
  · exact length_untilNul_take memory _

/-- A length that is not shorter is within the text if it is that of the text, or the limit comes
before it. -/
theorem atMost_le_iff {nbyte : Int32} {length read : Nat} (longer : atMost nbyte length ≤ read) :
    atMost nbyte read ≤ atMost nbyte length ↔
      0 ≤ nbyte ∧ nbyte.toInt ≤ length ∨ read ≤ atMost nbyte length := by
  rw [Int32.le_iff_toInt_le, show (0 : Int32).toInt = 0 from rfl]
  by_cases negative : nbyte < 0
  · have below : nbyte.toInt < 0 := Int32.lt_iff_toInt_lt.mp negative
    simp only [atMost, if_pos negative]
    omega
  · have notNegative : 0 ≤ nbyte.toInt := Int32.le_iff_toInt_le.mp (Int32.not_lt.mp negative)
    simp only [atMost, if_neg negative] at longer ⊢
    omega

/-- The offset is within the text, by its lengths. -/
theorem offset_le_iff (memory : Bytes) (nbyte : Int32) :
    atMost nbyte (Text.toUtf8 (Text.fromUtf8Lossy (cBytes memory nbyte))).length ≤
      atMost nbyte (untilNul memory).length ↔ KeepsLength memory nbyte := by
  have longer := Text.length_le_fromUtf8Lossy (cBytes memory nbyte)
  rw [length_cBytes] at longer
  rw [KeepsLength, ← Text.length_fromUtf8Lossy_le_iff, length_cBytes]
  exact atMost_le_iff longer

theorem prepareV2_some (memory : Bytes) (nbyte : Int32)
    (accepted : accepts planner (Text.fromUtf8Lossy (cBytes memory nbyte)) = true) :
    prepareV2 planner (some memory) nbyte =
      some (atMost nbyte (Text.toUtf8 (Text.fromUtf8Lossy (cBytes memory nbyte))).length) := by
  rw [prepareV2, cToString, Option.map_some, Option.getD_some]
  simp only [accepted, if_true]

/-- **The tail** is within the text exactly if the text is not accepted, is read at its own
length, or is cut by the limit. -/
theorem tailWithin_iff (sql : Option Bytes) (nbyte : Int32) : TailWithin planner sql nbyte ↔
    ∀ memory, sql = some memory →
      accepts planner (Text.fromUtf8Lossy (cBytes memory nbyte)) = true →
        KeepsLength memory nbyte := by
  cases sql with
  | none =>
      refine ⟨fun _ => nofun, fun _ offset stored => ?_⟩
      rw [prepareV2] at stored
      split at stored
      · injection stored with stored
        exact le_of_eq stored.symm
      · cases stored
  | some memory =>
      constructor
      · intro within memory' same accepted
        injection same with same
        rw [← same] at accepted ⊢
        exact (offset_le_iff memory nbyte).mp (within _ (prepareV2_some memory nbyte accepted))
      · intro keeps offset stored
        by_cases accepted : accepts planner (Text.fromUtf8Lossy (cBytes memory nbyte)) = true
        · rw [prepareV2_some memory nbyte accepted] at stored
          injection stored with stored
          rw [← stored]
          exact (offset_le_iff memory nbyte).mpr (keeps memory rfl accepted)
        · rw [prepareV2, cToString, Option.map_some, Option.getD_some] at stored
          simp only [accepted] at stored
          cases stored

end

/-- A parser that takes nothing. -/
def noParser : Planner Empty := ⟨fun _ => none, nofun, nofun⟩

/-- `PRAGMA a=` and the byte FF. -/
def invalidPragma : Bytes :=
  [0x50, 0x52, 0x41, 0x47, 0x4D, 0x41, 0x20, 0x61, 0x3D, 0xFF, 0x00]

/-- The last byte of the pragma is read as three, and the tail is two bytes behind the
terminator. -/
theorem tail_behind_terminator :
    prepareV2 noParser (some invalidPragma) (-1) = some 12 ∧
      inputLength (some invalidPragma) (-1) = 10 ∧
      ¬ TailWithin noParser (some invalidPragma) (-1) := by
  have stored : prepareV2 noParser (some invalidPragma) (-1) = some 12 := by decide +kernel
  have length : inputLength (some invalidPragma) (-1) = 10 := by decide +kernel
  refine ⟨stored, length, fun within => ?_⟩
  have inside := within 12 stored
  rw [length] at inside
  omega

end Squrust.Ffi
