import Mathlib.Data.List.TakeWhile
import Mathlib.Tactic.Common
import Squrust.Foundation.LossyUtf8
import Squrust.Foundation.Outcome

/-!
# Slices of texts by bytes

A text is cut at a number of bytes, and the cut panics unless a character ends there
(`splitAt`). It does not behind bytes that are ASCII, for each of these is a character
(`ascii_front`), nor in front of a character that was found by `charIndices`.
-/

set_option autoImplicit false

namespace Squrust.Foundation.Text

variable {ε : Type}

/-- `text.len()` -/
def byteLength (text : Text) : Nat := (toUtf8 text).length

/-- `text.split_at(n)` -/
def splitAt : Text → Nat → Outcome ε (Text × Text)
  | text, 0 => .ok ([], text)
  | [], _ + 1 => Outcome.panic "byte index is out of bounds"
  | c :: rest, n + 1 =>
      if c.utf8Size ≤ n + 1 then
        (splitAt rest (n + 1 - c.utf8Size)).map fun parts => (c :: parts.1, parts.2)
      else Outcome.panic "byte index is not a char boundary"

/-- `&text[n..]` -/
def sliceFrom (text : Text) (n : Nat) : Outcome ε Text := (splitAt text n).map Prod.snd

/-- `&text[..n]` -/
def sliceTo (text : Text) (n : Nat) : Outcome ε Text := (splitAt text n).map Prod.fst

/-- `text.char_indices()`, behind a number of bytes. -/
def charIndices : Text → Nat → List (Nat × Char)
  | [], _ => []
  | c :: rest, n => (n, c) :: charIndices rest (n + c.utf8Size)

/-- `text.strip_prefix(front)` -/
def stripPrefix (front text : Text) : Option Text :=
  if front.isPrefixOf text then some (text.drop front.length) else none

theorem stripPrefix_eq_some {front text rest : Text} :
    stripPrefix front text = some rest ↔ text = front ++ rest := by
  unfold stripPrefix
  split
  · rename_i held
    obtain ⟨behind, rfl⟩ := List.isPrefixOf_iff_prefix.mp held
    rw [List.drop_left, Option.some.injEq, List.append_cancel_left_eq]
  · rename_i apart
    constructor
    · exact nofun
    · rintro rfl
      exact absurd (List.isPrefixOf_iff_prefix.mpr (List.prefix_append _ _)) apart

/-! ## Between characters -/

@[simp] theorem byteLength_nil : byteLength [] = 0 := rfl

@[simp] theorem byteLength_cons (c : Char) (rest : Text) :
    byteLength (c :: rest) = c.utf8Size + byteLength rest := by
  rw [byteLength, toUtf8, List.flatMap_cons, List.length_append, String.length_utf8EncodeChar]
  rfl

@[simp] theorem byteLength_append (front behind : Text) :
    byteLength (front ++ behind) = byteLength front + byteLength behind := by
  induction front with
  | nil => exact (Nat.zero_add _).symm
  | cons c front ih => rw [List.cons_append, byteLength_cons, byteLength_cons, ih, Nat.add_assoc]

theorem splitAt_zero (text : Text) : (splitAt text 0 : Outcome ε _) = .ok ([], text) := by
  cases text <;> rfl

/-- A text is cut where a part of it ends. -/
theorem splitAt_append (front behind : Text) :
    (splitAt (front ++ behind) (byteLength front) : Outcome ε _) = .ok (front, behind) := by
  induction front with
  | nil => exact splitAt_zero behind
  | cons c front ih =>
      obtain ⟨n, size⟩ : ∃ n, byteLength (c :: front) = n + 1 := by
        have positive := c.utf8Size_pos
        rw [byteLength_cons]
        exact ⟨_, (Nat.succ_pred (by omega)).symm⟩
      have rest : n + 1 - c.utf8Size = byteLength front := by
        rw [← size, byteLength_cons, Nat.add_sub_cancel_left]
      rw [size, List.cons_append, splitAt, if_pos (by rw [← size, byteLength_cons]; omega), rest, ih]
      rfl

theorem sliceFrom_append (front behind : Text) :
    (sliceFrom (front ++ behind) (byteLength front) : Outcome ε _) = .ok behind := by
  rw [sliceFrom, splitAt_append]
  rfl

theorem sliceTo_append (front behind : Text) :
    (sliceTo (front ++ behind) (byteLength front) : Outcome ε _) = .ok front := by
  rw [sliceTo, splitAt_append]
  rfl

/-- What is found among the characters stands behind a part of the text. -/
theorem find_charIndices {found : Nat × Char → Bool} {text : Text} {start at_ : Nat} {c : Char}
    (first : (charIndices text start).find? found = some (at_, c)) :
    ∃ front behind, text = front ++ c :: behind ∧ at_ = start + byteLength front ∧
      found (at_, c) = true := by
  induction text generalizing start with
  | nil => cases first
  | cons d rest ih =>
      rw [charIndices, List.find?_cons] at first
      cases here : found (start, d) with
      | true =>
          rw [here] at first
          obtain ⟨rfl, rfl⟩ := Prod.mk.inj (Option.some.inj first)
          exact ⟨[], rest, rfl, rfl, here⟩
      | false =>
          rw [here] at first
          obtain ⟨front, behind, rfl, rfl, held⟩ := ih first
          refine ⟨d :: front, behind, rfl, ?_, held⟩
          rw [byteLength_cons, Nat.add_assoc]

/-! ## ASCII -/

theorem utf8EncodeChar_head {c : Char} {b : UInt8} {rest : Bytes}
    (encoded : String.utf8EncodeChar c = b :: rest) (ascii : b < 0x80) :
    c = Char.ofNat b.toNat ∧ rest = [] := by
  have small : b.toNat < 0x80 := ascii
  have number : Char.ofNat c.toNat = c := Char.ofNat_toNat c
  have valid : c.toNat.isValidChar := c.valid
  have shape := utf8EncodeChar_ofNat valid
  rw [number, encoded] at shape
  split_ifs at shape with one two three
  · injection shape with first none
    have same : c.toNat = b.toNat := by
      rw [first, UInt8.toNat_ofNat']
      omega
    exact ⟨by rw [← same, number], none⟩
  · injection shape with first _
    rw [first, UInt8.toNat_ofNat'] at small
    omega
  · injection shape with first _
    rw [first, UInt8.toNat_ofNat'] at small
    omega
  · injection shape with first _
    rw [first, UInt8.toNat_ofNat'] at small
    omega

/-- A byte that is ASCII is a character. -/
theorem ascii_head {text : Text} {b : UInt8} {bytes : Bytes} (read : toUtf8 text = b :: bytes)
    (ascii : b < 0x80) : ∃ rest, text = Char.ofNat b.toNat :: rest ∧ toUtf8 rest = bytes := by
  cases text with
  | nil => cases read
  | cons c rest =>
      rw [toUtf8, List.flatMap_cons] at read
      cases encoded : String.utf8EncodeChar c with
      | nil => exact absurd encoded String.utf8EncodeChar_ne_nil
      | cons b' bytes' =>
          rw [encoded, List.cons_append] at read
          obtain ⟨rfl, behind⟩ := List.cons.inj read
          obtain ⟨rfl, rfl⟩ := utf8EncodeChar_head encoded ascii
          exact ⟨rest, rfl, behind⟩

/-- **Bytes at the front that are ASCII** are characters. -/
theorem ascii_front {text : Text} {front behind : Bytes} (read : toUtf8 text = front ++ behind)
    (ascii : ∀ b ∈ front, b < 0x80) :
    ∃ rest, text = front.map (fun b => Char.ofNat b.toNat) ++ rest ∧ toUtf8 rest = behind := by
  induction front generalizing text with
  | nil => exact ⟨text, rfl, read⟩
  | cons b front ih =>
      obtain ⟨rest, rfl, bytes⟩ := ascii_head read (ascii b List.mem_cons_self)
      obtain ⟨rest', rfl, bytes'⟩ := ih bytes fun b member => ascii b (List.mem_cons_of_mem _ member)
      exact ⟨rest', rfl, bytes'⟩

theorem byteLength_ascii {front : Bytes} (ascii : ∀ b ∈ front, b < 0x80) :
    byteLength (front.map fun b => Char.ofNat b.toNat) = front.length := by
  induction front with
  | nil => rfl
  | cons b front ih =>
      have small : b.toNat < 0x80 := ascii b List.mem_cons_self
      have valid : b.toNat.isValidChar := .inl (by omega)
      have one : (Char.ofNat b.toNat).utf8Size = 1 := by
        rw [← String.length_utf8EncodeChar, utf8EncodeChar_ofNat valid, if_pos (by omega)]
        rfl
      rw [List.map_cons, byteLength_cons, one, List.length_cons,
        ih fun b member => ascii b (List.mem_cons_of_mem _ member), Nat.add_comm]

/-- A text can be cut behind bytes that are ASCII. -/
theorem sliceFrom_ascii {text : Text} {front behind : Bytes} (read : toUtf8 text = front ++ behind)
    (ascii : ∀ b ∈ front, b < 0x80) :
    ∃ rest, (sliceFrom text front.length : Outcome ε _) = .ok rest ∧ toUtf8 rest = behind := by
  obtain ⟨rest, rfl, bytes⟩ := ascii_front read ascii
  refine ⟨rest, ?_, bytes⟩
  rw [← byteLength_ascii ascii]
  exact sliceFrom_append _ rest

end Squrust.Foundation.Text
