import Squrust.Foundation.Answers
import Squrust.Sql.Row

/-!
# Every record, and every byte string

The loop that finds the length of a header ends for every list of values, and
the length it finds is that of the header. Whatever the bytes are, reading them
as a record gives a row or an error: no slice of the code is out of range.
-/

set_option autoImplicit false

namespace Squrust.Sql

open Squrust.Foundation

open Squrust.Core

/-! ## Reading any bytes -/

theorem answers_sliceFrom {data : Bytes} {start : Nat} (within : start ≤ data.length) :
    (sliceFrom data start).Answers fun rest => rest = data.drop start := by
  rw [sliceFrom, if_pos within]
  exact .ok rfl

theorem answers_need (data : Bytes) (n : Nat) : (need data n).Answers fun _ => n ≤ data.length := by
  unfold need
  split
  · exact .err _
  · exact .ok (by omega)

theorem answers_readInt {n : Nat} (some : 0 < n) (data : Bytes) :
    (readInt data n).Answers fun _ => n ≤ data.length := by
  apply (answers_need data n).bind
  intro _ enough
  have first : ∃ byte, data.head? = Option.some byte := by
    cases data with
    | nil => simp at enough; omega
    | cons byte rest => exact ⟨byte, rfl⟩
  obtain ⟨byte, first⟩ := first
  exact (@Outcome.Answers.orPanic _ _ (fun _ => True) _ _ ⟨byte, first, trivial⟩).bind
    fun _ _ => .pure enough

/-- A value takes no more bytes than there are. -/
theorem answers_decodeValue (serial : UInt64) (data : Bytes) :
    (decodeValue serial data).Answers fun made => made.2 ≤ data.length := by
  have integer : ∀ n, 0 < n →
      (do return (Value.integer (← readInt data n), n) : Outcome SqlError (Value × Nat)).Answers
        fun made => made.2 ≤ data.length := by
    intro n some
    exact (answers_readInt some data).bind fun _ enough => .pure enough
  unfold decodeValue
  refine .ite (fun _ => .pure (Nat.zero_le _)) fun _ => ?_
  refine .ite (fun _ => integer 1 (by decide)) fun _ => ?_
  refine .ite (fun _ => integer 2 (by decide)) fun _ => ?_
  refine .ite (fun _ => integer 3 (by decide)) fun _ => ?_
  refine .ite (fun _ => integer 4 (by decide)) fun _ => ?_
  refine .ite (fun _ => integer 6 (by decide)) fun _ => ?_
  refine .ite (fun _ => integer 8 (by decide)) fun _ => ?_
  refine .ite (fun _ => .ite (fun _ => .err _) fun enough => .pure (Nat.not_lt.mp enough)) fun _ => ?_
  refine .ite (fun _ => .pure (Nat.zero_le _)) fun _ => ?_
  refine .ite (fun _ => .pure (Nat.zero_le _)) fun _ => ?_
  refine .ite (fun _ => (answers_need data _).bind fun _ enough => .pure enough) fun _ => ?_
  refine .ite (fun _ => (answers_need data _).bind fun _ enough => ?_) fun _ => .err _
  cases Text.fromUtf8 (data.take ((serial - 13) / 2).toNat) with
  | some text => exact .pure enough
  | none => exact .err _

/-- The header ends in the data, or it is an error. -/
theorem answers_readSerials {data : Bytes} {headerEnd : Nat} (rounds : Nat) {pos : Nat}
    (within : pos ≤ data.length) (enough : data.length < pos + rounds) :
    (readSerials data headerEnd rounds pos).Answers fun _ => headerEnd ≤ data.length := by
  induction rounds generalizing pos with
  | zero => omega
  | succ rounds ih =>
      refine .ite (fun inside => ?_) fun outside => .pure (by omega)
      apply (answers_sliceFrom within).bind
      rintro rest rfl
      refine (@Outcome.Answers.orErr _ _ (fun read => 0 < read.2 ∧ read.2 ≤ data.length - pos) _ _
        fun read found => ?_).bind fun read bounds => ?_
      · have bounds := Varint.read_bounds found
        rwa [List.length_drop] at bounds
      · exact (ih (by omega) (by omega)).bind fun _ ended => .pure ended

theorem answers_readValues {data : Bytes} (serials : List UInt64) {body : Nat}
    (within : body ≤ data.length) : (readValues data serials body).Answers fun _ => True := by
  induction serials generalizing body with
  | nil => exact .pure trivial
  | cons serial serials ih =>
      apply (answers_sliceFrom within).bind
      rintro rest rfl
      apply (answers_decodeValue serial (data.drop body)).bind
      intro made used
      rw [List.length_drop] at used
      exact (ih (by omega)).bind fun _ _ => .pure trivial

/-- Any bytes are read as a row, or they are an error. -/
theorem answers_decode (rowId : Int64) (data : Bytes) :
    (Row.decode rowId data).Answers fun _ => True := by
  refine (@Outcome.Answers.orErr _ _ (fun read => read.2 ≤ data.length) _ _
    fun read found => ?_).bind fun read within => ?_
  · exact (Varint.read_bounds found).2
  · apply (answers_readSerials (data.length + 1) within (by omega)).bind
    intro serials ended
    exact (answers_readValues serials ended).bind fun _ _ => .pure trivial

/-! ## Every record -/

/-- The loop of the header ends, with the length of the header. -/
theorem Row.InMemory.headerLen_settled {row : Row} (small : row.InMemory) {rounds : Nat}
    (enough : 9 ≤ rounds) :
    headerLenLoop row.serialBytes rounds (row.serialBytes + 1) = row.header.length := by
  obtain ⟨more, rfl⟩ := Nat.exists_eq_add_of_le enough
  rw [small.length_header]
  exact headerLenLoop_add small.headerLen_fixed more

/-- **Records.** The loop of the header breaks, the length it finds is written in front and is that
of the header, and the values are read back. Any bytes at all are read as a row or are an error. -/
theorem Row.records :
    (∀ row : Row, row.InMemory →
      (∀ rounds, 9 ≤ rounds →
        headerLenLoop row.serialBytes rounds (row.serialBytes + 1) = row.header.length) ∧
      row.serialBytes + Varint.len (UInt64.ofNat row.header.length) = row.header.length ∧
      row.encode = row.header ++ row.bodies ∧
      (∃ n, Varint.read row.encode = some (UInt64.ofNat row.header.length, n)) ∧
      Row.decode row.rowId row.encode = .ok ⟨row.rowId, row.values.map Value.stored⟩) ∧
    ∀ rowId data, (∃ row, Row.decode rowId data = .ok row) ∨ ∃ e, Row.decode rowId data = .err e := by
  refine ⟨fun row small => ⟨fun rounds => small.headerLen_settled, ?_, row.encode_eq,
    ⟨_, small.read_encode⟩, Row.decode_encode small⟩, fun rowId data => ?_⟩
  · rw [small.length_header]
    exact small.headerLen_fixed
  · rcases answers_decode rowId data with ⟨row, returned, -⟩ | failed
    · exact Or.inl ⟨row, returned⟩
    · exact Or.inr failed

/-- A row with a value of each kind that is read back as another one. -/
def someValues : Row := ⟨7, [.null, .integer (-1000), .boolean true, .json "[]".toList]⟩

theorem Row.records_someValues :
    Row.decode 7 someValues.encode =
      .ok ⟨7, [.null, .integer (-1000), .integer 1, .text "[]".toList]⟩ ∧
    ((∃ row, Row.decode 7 [200] = .ok row) ∨ ∃ e, Row.decode 7 [200] = .err e) :=
  ⟨(Row.records.1 someValues (by unfold Row.InMemory; decide +kernel)).2.2.2.2, Row.records.2 7 [200]⟩

end Squrust.Sql
