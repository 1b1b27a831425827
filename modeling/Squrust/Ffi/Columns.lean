import Squrust.Foundation.LossyUtf8
import Squrust.Ffi.Stepping

/-!
# The buffers of a column

The text of a column, its bytes and their number are made by three calls, each from the
value. A text with a NUL inside is no C string, and its buffer is empty, while the
number of bytes is that of the text; the number is cut to 32 bits; and the number of a
blob is its own, while its text may be longer. Otherwise a caller that reads that many
bytes stays within the buffers and reads the value (`readsWithin_iff`).
-/

set_option autoImplicit false

namespace Squrust.Ffi.Prepared

open Squrust.Foundation

open Sql (Value)

/-- `CString::new`: none if a NUL is inside. -/
def cString (text : Text) : Option Bytes :=
  if 0 ∈ Text.toUtf8 text then none else some (Text.toUtf8 text)

namespace StmtState

/-- `sqlite3_column_text`: the bytes before the terminator, or NULL. -/
def columnText (st : StmtState) (col : Int32) : Option Bytes :=
  match st.valueAt col with
  | none | some .null => none
  | some v => some ((cString v.toDisplayString).getD [])

/-- `sqlite3_column_blob`: the bytes, or NULL. -/
def columnBlob (st : StmtState) (col : Int32) : Option Bytes :=
  match st.valueAt col with
  | some (.blob b) => nonempty b
  | some (.text t) => nonempty (Text.toUtf8 t)
  | some .null | none => none
  | some other => nonempty (Text.toUtf8 other.toDisplayString)
where
  nonempty (bytes : Bytes) : Option Bytes := if bytes = [] then none else some bytes

/-- `sqlite3_column_bytes` -/
def columnBytes (st : StmtState) (col : Int32) : Int32 :=
  match st.valueAt col with
  | some (.blob b) => Int32.ofNat b.length
  | some .null | none => 0
  | some v => Int32.ofNat (Text.toUtf8 v.toDisplayString).length

end StmtState

/-- A caller that reads the bytes of a column stays within the buffers, and reads the value. -/
structure ReadsWithin (st : StmtState) (col : Int32) : Prop where
  text : ∀ buffer, st.columnText col = some buffer →
    (0 ≤ (st.columnBytes col).toInt ∧ (st.columnBytes col).toInt ≤ buffer.length) ∧
      ∀ v, st.valueAt col = some v →
        buffer.take (st.columnBytes col).toInt.toNat = Text.toUtf8 v.toDisplayString
  noText : st.columnText col = none → st.columnBytes col = 0
  blob : ∀ buffer, st.columnBlob col = some buffer → (st.columnBytes col).toInt = buffer.length
  noBlob : st.columnBlob col = none ↔ st.columnBytes col = 0

/-- A value with no NUL in its text, which is short enough for 32 bits and, for a blob, as long
as the blob: what is no character in it has the three bytes of U+FFFD. -/
def FitsBuffers (v : Value) : Prop :=
  0 ∉ Text.toUtf8 v.toDisplayString ∧ (Text.toUtf8 v.toDisplayString).length < 2 ^ 31 ∧
    ∀ b, v = .blob b → ∀ piece ∈ Text.pieces b, piece.2 = false → piece.1 = 3

theorem toInt_ofNat (n : Nat) : (Int32.ofNat n).toInt = (n : Int).bmod (2 ^ 32) :=
  Int32.toInt_ofNat'

/-- A length is cut to 32 bits, unless it is below 2^31. -/
theorem toInt_ofNat_eq_iff {n m : Nat} (below : n ≤ m) :
    (Int32.ofNat n).toInt = m ↔ n = m ∧ m < 2 ^ 31 := by
  rw [toInt_ofNat, Int.bmod_def]
  omega

theorem toInt_ofNat_le (n : Nat) : (Int32.ofNat n).toInt ≤ n := by
  rw [toInt_ofNat, Int.bmod_def]
  omega

/-- The bytes a value is counted by, and the ones of its text. -/
def byteCount : Value → Nat
  | .blob b => b.length
  | v => (Text.toUtf8 v.toDisplayString).length

theorem byteCount_le (v : Value) : byteCount v ≤ (Text.toUtf8 v.toDisplayString).length := by
  cases v with
  | blob b => exact Text.length_le_fromUtf8Lossy b
  | _ => exact le_refl _

/-- The text has as many bytes as the value is counted by exactly if every piece of a blob that
is no character has three. -/
theorem byteCount_eq_iff (v : Value) : byteCount v = (Text.toUtf8 v.toDisplayString).length ↔
    ∀ b, v = .blob b → ∀ piece ∈ Text.pieces b, piece.2 = false → piece.1 = 3 := by
  cases v with
  | blob b =>
      have longer := Text.length_le_fromUtf8Lossy b
      have iff_ := Text.length_fromUtf8Lossy_le_iff b
      constructor
      · intro same _ isBlob
        injection isBlob with isBlob
        rw [← isBlob]
        exact iff_.mp (le_of_eq same.symm)
      · intro all
        exact le_antisymm longer (iff_.mpr (all b rfl))
  | _ => exact ⟨fun _ => nofun, fun _ => rfl⟩

namespace StmtState

variable {st : StmtState} {col : Int32} {v : Value}

theorem columnText_eq (here : st.valueAt col = some v) (notNull : v ≠ .null) :
    st.columnText col = some ((cString v.toDisplayString).getD []) := by
  rw [columnText, here]
  cases v with
  | null => exact absurd rfl notNull
  | _ => rfl

theorem columnBytes_eq (here : st.valueAt col = some v) :
    st.columnBytes col = Int32.ofNat (byteCount v) := by
  rw [columnBytes, here]
  cases v <;> rfl

/-- The buffer of the bytes has as many as the value is counted by. -/
theorem columnBlob_eq (here : st.valueAt col = some v) : ∃ bytes : Bytes,
    bytes.length = byteCount v ∧ st.columnBlob col = columnBlob.nonempty bytes := by
  rw [columnBlob, here]
  cases v with
  | null => exact ⟨[], rfl, rfl⟩
  | blob b => exact ⟨b, rfl, rfl⟩
  | _ => exact ⟨_, rfl, rfl⟩

end StmtState

theorem fitsBuffers_iff (v : Value) : FitsBuffers v ↔ 0 ∉ Text.toUtf8 v.toDisplayString ∧
    (Int32.ofNat (byteCount v)).toInt = (Text.toUtf8 v.toDisplayString).length := by
  rw [FitsBuffers, toInt_ofNat_eq_iff (byteCount_le v), byteCount_eq_iff]
  exact and_congr_right fun _ => and_comm

/-- A value that does not fit is not read, or not read whole. -/
theorem fitsBuffers_of_readsWithin {st : StmtState} {col : Int32} {v : Value}
    (here : st.valueAt col = some v) (notNull : v ≠ .null) (reads : ReadsWithin st col) :
    FitsBuffers v := by
  obtain ⟨⟨notNegative, within⟩, whole⟩ := reads.text _ (StmtState.columnText_eq here notNull)
  have same := whole v here
  rw [StmtState.columnBytes_eq here] at notNegative within same
  have noNul : 0 ∉ Text.toUtf8 v.toDisplayString := by
    intro nul
    rw [cString, if_pos nul, Option.getD_none, List.take_nil] at same
    rw [← same] at nul
    exact List.not_mem_nil nul
  rw [cString, if_neg noNul, Option.getD_some] at within same
  have long := congrArg List.length same
  rw [List.length_take] at long
  rw [fitsBuffers_iff]
  exact ⟨noNul, by omega⟩

/-- A value that fits is read whole. -/
theorem readsWithin_of_fitsBuffers {st : StmtState} {col : Int32} {v : Value}
    (here : st.valueAt col = some v) (notNull : v ≠ .null) (fits : FitsBuffers v) :
    ReadsWithin st col := by
  obtain ⟨noNul, count⟩ := (fitsBuffers_iff v).mp fits
  obtain ⟨bytes, length, blob⟩ := StmtState.columnBlob_eq here
  have text := StmtState.columnText_eq here notNull
  rw [cString, if_neg noNul, Option.getD_some] at text
  have bytes_ := StmtState.columnBytes_eq here
  have sized : (Int32.ofNat (byteCount v)).toInt = bytes.length := by
    have below := byteCount_le v
    have exact_ := (toInt_ofNat_eq_iff below).mp count
    rw [count, length, exact_.1]
  constructor
  · intro buffer found
    rw [text] at found
    injection found with found
    rw [bytes_, count, ← found]
    refine ⟨⟨Int.natCast_nonneg _, le_refl _⟩, fun v' here' => ?_⟩
    rw [here] at here'
    injection here' with here'
    rw [← here', Int.toNat_natCast, List.take_length]
  · intro none_
    rw [text] at none_
    cases none_
  · intro buffer found
    rw [blob, StmtState.columnBlob.nonempty] at found
    split at found
    · cases found
    · injection found with found
      rw [bytes_, sized, found]
  · rw [blob, bytes_, StmtState.columnBlob.nonempty, ← Int32.toInt_inj, sized]
    constructor
    · intro none_
      split at none_
      · next empty => rw [empty]; rfl
      · cases none_
    · intro zero
      have empty : bytes = [] := List.eq_nil_of_length_eq_zero (by
        have : (bytes.length : Int) = 0 := zero
        omega)
      rw [if_pos empty]

/-- Where there is no value there are no buffers. -/
theorem readsWithin_of_noValue {st : StmtState} {col : Int32}
    (noValue : ∀ v, st.valueAt col = some v → v = .null) : ReadsWithin st col := by
  obtain ⟨text, blob, bytes⟩ :
      st.columnText col = none ∧ st.columnBlob col = none ∧ st.columnBytes col = 0 := by
    rw [StmtState.columnText, StmtState.columnBlob, StmtState.columnBytes]
    cases here : st.valueAt col with
    | none => exact ⟨rfl, rfl, rfl⟩
    | some v =>
        rw [noValue v here]
        exact ⟨rfl, rfl, rfl⟩
  refine ⟨?_, fun _ => bytes, ?_, fun _ => bytes, fun _ => blob⟩
  · intro buffer found
    rw [text] at found
    cases found
  · intro buffer found
    rw [blob] at found
    cases found

theorem fitsBuffers_null : FitsBuffers .null :=
  ⟨List.not_mem_nil, by decide, nofun⟩

/-- **The buffers of a column** may be read by the number of bytes, and hold the value, exactly
if the value fits them. -/
theorem readsWithin_iff (st : StmtState) (col : Int32) :
    ReadsWithin st col ↔ ∀ v, st.valueAt col = some v → FitsBuffers v := by
  by_cases noValue : ∀ v, st.valueAt col = some v → v = .null
  · refine ⟨fun _ v here => ?_, fun _ => readsWithin_of_noValue noValue⟩
    rw [noValue v here]
    exact fitsBuffers_null
  · simp only [not_forall] at noValue
    obtain ⟨v, here, notNull⟩ := noValue
    constructor
    · intro reads v' here'
      rw [here] at here'
      injection here' with same
      rw [← same]
      exact fitsBuffers_of_readsWithin here notNull reads
    · intro fits
      exact readsWithin_of_fitsBuffers here notNull (fits v here)

/-- A statement at a row of one value. -/
def atValue (v : Value) : StmtState :=
  ⟨[], [], true, true, [], [[v]], 1, some 0, true⟩

/-- A text or a blob with a NUL inside has an empty buffer, and the bytes in front of the NUL and
behind it are counted. A byte that is no character is read as one of three. -/
theorem buffer_too_short :
    (atValue (.text ['a', Char.ofNat 0, 'b'])).columnText 0 = some [] ∧
      (atValue (.text ['a', Char.ofNat 0, 'b'])).columnBytes 0 = 3 ∧
      ¬ ReadsWithin (atValue (.text ['a', Char.ofNat 0, 'b'])) 0 ∧
      ¬ ReadsWithin (atValue (.blob [0x61, 0x00, 0x62])) 0 ∧
      ¬ ReadsWithin (atValue (.blob [0xFF])) 0 := by
  refine ⟨by decide, by decide, fun reads => ?_, fun reads => ?_, fun reads => ?_⟩
  · exact absurd (reads.text [] (by decide)).1.2 (by decide)
  · exact absurd (reads.text [] (by decide +kernel)).1.2 (by decide)
  · have whole := (reads.text [0xEF, 0xBF, 0xBD] (by decide +kernel)).2 _ rfl
    exact absurd whole (by decide +kernel)

end Squrust.Ffi.Prepared
