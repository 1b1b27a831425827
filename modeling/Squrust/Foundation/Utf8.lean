import Squrust.Foundation.Bytes
import Squrust.Foundation.Text

/-!
# Text as bytes

The UTF-8 encoding of a text. It is decoded as that text (`fromUtf8_toUtf8`),
and bytes that no text has are refused, or read with U+FFFD in the place of what
does not belong there.
-/

set_option autoImplicit false

namespace Squrust.Foundation.Text

/-- `as_bytes` -/
def toUtf8 (text : Text) : Bytes := text.flatMap String.utf8EncodeChar

/-- `String::from_utf8` -/
def fromUtf8 (bytes : Bytes) : Option Text := bytes.toByteArray.utf8Decode?.map Array.toList

theorem fromUtf8_toUtf8 (text : Text) : fromUtf8 (toUtf8 text) = some text := by
  have decoded : text.utf8Encode.utf8Decode? = some text.toArray := List.utf8Decode?_utf8Encode
  change text.utf8Encode.utf8Decode?.map Array.toList = _
  rw [decoded]
  rfl

/-- How many bytes a character has that begins with this byte, and which bytes may come second. -/
def firstByte (b : UInt8) : Option (Nat × UInt8 × UInt8) :=
  if b < 0x80 then some (1, 0, 0)
  else if 0xC2 ≤ b ∧ b ≤ 0xDF then some (2, 0x80, 0xBF)
  else if b = 0xE0 then some (3, 0xA0, 0xBF)
  else if b = 0xED then some (3, 0x80, 0x9F)
  else if 0xE1 ≤ b ∧ b ≤ 0xEF then some (3, 0x80, 0xBF)
  else if b = 0xF0 then some (4, 0x90, 0xBF)
  else if b = 0xF4 then some (4, 0x80, 0x8F)
  else if 0xF1 ≤ b ∧ b ≤ 0xF3 then some (4, 0x80, 0xBF)
  else none

/-- How many of the bytes at the front belong together, and whether they are a character. -/
def front : Bytes → Nat × Bool
  | [] => (0, false)
  | b :: rest =>
      match firstByte b with
      | none => (1, false)
      | some (1, _, _) => (1, true)
      | some (length, low, high) =>
          match rest with
          | second :: more =>
              if low ≤ second ∧ second ≤ high then
                let follow := (more.take (length - 2)).takeWhile fun c => 0x80 ≤ c ∧ c ≤ 0xBF
                (2 + follow.length, 2 + follow.length = length)
              else (1, false)
          | [] => (1, false)

/-- `String::from_utf8_lossy`: each piece that is no character becomes U+FFFD. -/
def fromUtf8Lossy (bytes : Bytes) : Text :=
  loop bytes.length bytes
where
  loop : Nat → Bytes → Text
    | 0, _ => []
    | _, [] => []
    | rounds + 1, bytes =>
        let (length, whole) := front bytes
        let read := if whole then (fromUtf8 (bytes.take length)).getD [] else [Char.ofNat 0xFFFD]
        read ++ loop rounds (bytes.drop length)

example : fromUtf8Lossy [0x61, 0xE2, 0x82, 0x62, 0xFF, 0xC3, 0xA9] = "a\uFFFDb\uFFFDé".toList := by
  decide +kernel

end Squrust.Foundation.Text
