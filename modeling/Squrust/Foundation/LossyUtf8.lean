import Mathlib.Algebra.Order.BigOperators.Group.List
import Mathlib.Data.List.TakeWhile
import Mathlib.Tactic.Common
import Squrust.Foundation.Utf8

/-!
# How long a text is that was read with replacements

The bytes are cut into pieces (`pieces`). A piece that is a character is read as it is,
and one that is none, of one to three bytes, becomes U+FFFD, which has three
(`length_fromUtf8Lossy`). So the text read from bytes is never shorter than them, and
as long exactly if the pieces that are no character have three bytes each
(`length_fromUtf8Lossy_le_iff`).
-/

set_option autoImplicit false

namespace Squrust.Foundation.Text

/-! ## The piece at the front -/

/-- The bytes of a character by its number. -/
theorem utf8EncodeChar_ofNat {n : Nat} (valid : n.isValidChar) :
    String.utf8EncodeChar (Char.ofNat n) =
      if n ≤ 0x7f then [UInt8.ofNat n]
      else if n ≤ 0x7ff then [UInt8.ofNat (n / 64 % 0x20 + 0xc0), UInt8.ofNat (n % 0x40 + 0x80)]
      else if n ≤ 0xffff then
        [UInt8.ofNat (n / 4096 % 0x10 + 0xe0), UInt8.ofNat (n / 64 % 0x40 + 0x80),
          UInt8.ofNat (n % 0x40 + 0x80)]
      else
        [UInt8.ofNat (n / 262144 % 0x08 + 0xf0), UInt8.ofNat (n / 4096 % 0x40 + 0x80),
          UInt8.ofNat (n / 64 % 0x40 + 0x80), UInt8.ofNat (n % 0x40 + 0x80)] := by
  have number : (Char.ofNat n).val.toNat = n := by
    rw [Char.ofNat, dif_pos valid]
    rfl
  rw [String.utf8EncodeChar, number]

/-- A byte by its number. -/
theorem ofNat_eq {b : UInt8} {n : Nat} (same : n = b.toNat) : UInt8.ofNat n = b := by
  rw [same, UInt8.ofNat_toNat]

theorem isChar_one {b : UInt8} (below : b < 0x80) : ∃ c, [b] = String.utf8EncodeChar c := by
  have small : b.toNat < 0x80 := below
  have valid : b.toNat.isValidChar := .inl (by omega)
  refine ⟨Char.ofNat b.toNat, ?_⟩
  rw [utf8EncodeChar_ofNat valid, if_pos (by omega), UInt8.ofNat_toNat]

theorem isChar_two {b c : UInt8} (first : 0xC2 ≤ b ∧ b ≤ 0xDF) (second : 0x80 ≤ c ∧ c ≤ 0xBF) :
    ∃ ch, [b, c] = String.utf8EncodeChar ch := by
  have low : 0xC2 ≤ b.toNat := first.1
  have high : b.toNat ≤ 0xDF := first.2
  have low' : 0x80 ≤ c.toNat := second.1
  have high' : c.toNat ≤ 0xBF := second.2
  have valid : ((b.toNat - 0xC0) * 64 + (c.toNat - 0x80)).isValidChar := .inl (by omega)
  refine ⟨Char.ofNat ((b.toNat - 0xC0) * 64 + (c.toNat - 0x80)), ?_⟩
  rw [utf8EncodeChar_ofNat valid, if_neg (by omega), if_pos (by omega)]
  rw [@ofNat_eq b _ (by omega), @ofNat_eq c _ (by omega)]

theorem isChar_three {b c d : UInt8} (first : 0xE0 ≤ b ∧ b ≤ 0xEF) (second : 0x80 ≤ c ∧ c ≤ 0xBF)
    (notShort : b = 0xE0 → 0xA0 ≤ c) (noSurrogate : b = 0xED → c ≤ 0x9F)
    (third : 0x80 ≤ d ∧ d ≤ 0xBF) : ∃ ch, [b, c, d] = String.utf8EncodeChar ch := by
  have low : 0xE0 ≤ b.toNat := first.1
  have high : b.toNat ≤ 0xEF := first.2
  have low' : 0x80 ≤ c.toNat := second.1
  have high' : c.toNat ≤ 0xBF := second.2
  have low'' : 0x80 ≤ d.toNat := third.1
  have high'' : d.toNat ≤ 0xBF := third.2
  have notShort' : b.toNat = 0xE0 → 0xA0 ≤ c.toNat := fun same => notShort (UInt8.toNat_inj.mp same)
  have noSurrogate' : b.toNat = 0xED → c.toNat ≤ 0x9F := fun same =>
    noSurrogate (UInt8.toNat_inj.mp same)
  let n := (b.toNat - 0xE0) * 4096 + (c.toNat - 0x80) * 64 + (d.toNat - 0x80)
  have n_eq : n = (b.toNat - 0xE0) * 4096 + (c.toNat - 0x80) * 64 + (d.toNat - 0x80) := rfl
  have valid : n.isValidChar := by
    unfold Nat.isValidChar
    omega
  refine ⟨Char.ofNat n, ?_⟩
  rw [utf8EncodeChar_ofNat valid, if_neg (by omega), if_neg (by omega), if_pos (by omega),
    @ofNat_eq b _ (by omega), @ofNat_eq c _ (by omega), @ofNat_eq d _ (by omega)]

theorem isChar_four {b c d e : UInt8} (first : 0xF0 ≤ b ∧ b ≤ 0xF4) (second : 0x80 ≤ c ∧ c ≤ 0xBF)
    (notShort : b = 0xF0 → 0x90 ≤ c) (notAbove : b = 0xF4 → c ≤ 0x8F)
    (third : 0x80 ≤ d ∧ d ≤ 0xBF) (fourth : 0x80 ≤ e ∧ e ≤ 0xBF) :
    ∃ ch, [b, c, d, e] = String.utf8EncodeChar ch := by
  have low : 0xF0 ≤ b.toNat := first.1
  have high : b.toNat ≤ 0xF4 := first.2
  have low' : 0x80 ≤ c.toNat := second.1
  have high' : c.toNat ≤ 0xBF := second.2
  have low'' : 0x80 ≤ d.toNat := third.1
  have high'' : d.toNat ≤ 0xBF := third.2
  have low''' : 0x80 ≤ e.toNat := fourth.1
  have high''' : e.toNat ≤ 0xBF := fourth.2
  have notShort' : b.toNat = 0xF0 → 0x90 ≤ c.toNat := fun same => notShort (UInt8.toNat_inj.mp same)
  have notAbove' : b.toNat = 0xF4 → c.toNat ≤ 0x8F := fun same => notAbove (UInt8.toNat_inj.mp same)
  let n := (b.toNat - 0xF0) * 262144 + (c.toNat - 0x80) * 4096 + (d.toNat - 0x80) * 64 +
    (e.toNat - 0x80)
  have n_eq : n = (b.toNat - 0xF0) * 262144 + (c.toNat - 0x80) * 4096 + (d.toNat - 0x80) * 64 +
    (e.toNat - 0x80) := rfl
  have valid : n.isValidChar := by
    unfold Nat.isValidChar
    omega
  refine ⟨Char.ofNat n, ?_⟩
  rw [utf8EncodeChar_ofNat valid, if_neg (by omega), if_neg (by omega), if_neg (by omega),
    @ofNat_eq b _ (by omega), @ofNat_eq c _ (by omega), @ofNat_eq d _ (by omega),
    @ofNat_eq e _ (by omega)]

/-- What may follow a byte that begins a character. -/
theorem firstByte_eq_some {b low high : UInt8} {length : Nat}
    (begins : firstByte b = some (length, low, high)) :
    length = 1 ∧ b < 0x80 ∨
      length = 2 ∧ (0xC2 ≤ b ∧ b ≤ 0xDF) ∧ low = 0x80 ∧ high = 0xBF ∨
      length = 3 ∧ (0xE0 ≤ b ∧ b ≤ 0xEF) ∧ 0x80 ≤ low ∧ high ≤ 0xBF ∧ (b = 0xE0 → 0xA0 ≤ low) ∧
        (b = 0xED → high ≤ 0x9F) ∨
      length = 4 ∧ (0xF0 ≤ b ∧ b ≤ 0xF4) ∧ 0x80 ≤ low ∧ high ≤ 0xBF ∧ (b = 0xF0 → 0x90 ≤ low) ∧
        (b = 0xF4 → high ≤ 0x8F) := by
  have all : ∀ n : Fin 256, (firstByte (UInt8.ofFin n)).all fun entry =>
      (entry.1 = 1 ∧ UInt8.ofFin n < 0x80 ∨
      entry.1 = 2 ∧ (0xC2 ≤ UInt8.ofFin n ∧ UInt8.ofFin n ≤ 0xDF) ∧ entry.2.1 = 0x80 ∧
        entry.2.2 = 0xBF ∨
      entry.1 = 3 ∧ (0xE0 ≤ UInt8.ofFin n ∧ UInt8.ofFin n ≤ 0xEF) ∧ 0x80 ≤ entry.2.1 ∧
        entry.2.2 ≤ 0xBF ∧ (UInt8.ofFin n = 0xE0 → 0xA0 ≤ entry.2.1) ∧
        (UInt8.ofFin n = 0xED → entry.2.2 ≤ 0x9F) ∨
      entry.1 = 4 ∧ (0xF0 ≤ UInt8.ofFin n ∧ UInt8.ofFin n ≤ 0xF4) ∧ 0x80 ≤ entry.2.1 ∧
        entry.2.2 ≤ 0xBF ∧ (UInt8.ofFin n = 0xF0 → 0x90 ≤ entry.2.1) ∧
        (UInt8.ofFin n = 0xF4 → entry.2.2 ≤ 0x8F) : Bool) := by
    decide +kernel
  have here := all b.toFin
  rw [UInt8.ofFin_toFin, begins, Option.all_some, decide_eq_true_iff] at here
  exact here

/-- The piece at the front if it begins a character of more bytes: alone if the second byte
is none it takes, else with the bytes that follow on. -/
theorem front_long {b low high : UInt8} {length : Nat} (rest : Bytes)
    (begins : firstByte b = some (length, low, high)) (long : 2 ≤ length) :
    front (b :: rest) = (1, false) ∨
      ∃ second more follow, rest = second :: more ∧ (low ≤ second ∧ second ≤ high) ∧
        follow <+: more ∧ follow.length ≤ length - 2 ∧ (∀ c ∈ follow, 0x80 ≤ c ∧ c ≤ 0xBF) ∧
        front (b :: rest) = (2 + follow.length, decide (2 + follow.length = length)) := by
  cases rest with
  | nil =>
      left
      simp only [front, begins]
      split
      · contradiction
      · next equal => injection equal with equal; injection equal with one; omega
      · rfl
  | cons second more =>
      by_cases inRange : low ≤ second ∧ second ≤ high
      · right
        refine ⟨second, more,
          (more.take (length - 2)).takeWhile fun c => 0x80 ≤ c ∧ c ≤ 0xBF, rfl, inRange,
          (List.takeWhile_prefix _).trans (List.take_prefix _ _), ?_, ?_, ?_⟩
        · exact (List.takeWhile_prefix _).length_le.trans (by rw [List.length_take]; omega)
        · intro c member
          exact of_decide_eq_true (@List.mem_takeWhile_imp _
            (fun c : UInt8 => decide (0x80 ≤ c ∧ c ≤ 0xBF)) _ _ member)
        · simp only [front, begins]
          split
          · contradiction
          · next equal => injection equal with equal; injection equal with one; omega
          · next equal =>
              injection equal with equal
              injection equal with length_ rest_
              injection rest_ with low_ high_
              subst length_ low_ high_
              rw [if_pos inRange]
      · left
        simp only [front, begins]
        split
        · contradiction
        · next equal => injection equal with equal; injection equal with one; omega
        · next equal =>
            injection equal with equal
            injection equal with length_ rest_
            injection rest_ with low_ high_
            subst length_ low_ high_
            rw [if_neg inRange]

/-- **The piece at the front** is a character, or has at most three bytes. -/
theorem front_cons (b : UInt8) (rest : Bytes) :
    1 ≤ (front (b :: rest)).1 ∧ (front (b :: rest)).1 ≤ (b :: rest).length ∧
      ((front (b :: rest)).2 = true →
        ∃ c, (b :: rest).take (front (b :: rest)).1 = String.utf8EncodeChar c) ∧
      ((front (b :: rest)).2 = false → (front (b :: rest)).1 ≤ 3) := by
  have alone : 1 ≤ 1 ∧ 1 ≤ (b :: rest).length ∧
      (false = true → ∃ c, (b :: rest).take 1 = String.utf8EncodeChar c) ∧
      (false = false → 1 ≤ 3) :=
    ⟨le_refl _, Nat.succ_le_succ (Nat.zero_le _), Bool.noConfusion, fun _ => by decide⟩
  cases begins : firstByte b with
  | none =>
      have found : front (b :: rest) = (1, false) := by
        simp only [front, begins]
      rw [found]
      exact alone
  | some entry =>
      obtain ⟨length, low, high⟩ := entry
      rcases firstByte_eq_some begins with ⟨rfl, ascii⟩ | ⟨rfl, first, rfl, rfl⟩ |
        ⟨rfl, first, low_, high_, notShort, noSurrogate⟩ |
        ⟨rfl, first, low_, high_, notShort, notAbove⟩
      · have found : front (b :: rest) = (1, true) := by
          simp only [front, begins]
        rw [found]
        exact ⟨le_refl _, Nat.succ_le_succ (Nat.zero_le _), fun _ => isChar_one ascii,
          Bool.noConfusion⟩
      · rcases front_long rest begins (le_refl 2) with found |
          ⟨c, more, follow, rfl, second, _, few, _, found⟩
        · rw [found]
          exact alone
        · have none_ : follow = [] := List.eq_nil_of_length_eq_zero (by omega)
          subst none_
          rw [found]
          exact ⟨by decide, by simp, fun _ => isChar_two first second, fun _ => by decide⟩
      · rcases front_long rest begins (by decide) with found |
          ⟨c, more, follow, rfl, second, ⟨after, rfl⟩, few, continue_, found⟩
        · rw [found]
          exact alone
        · have second' : 0x80 ≤ c ∧ c ≤ 0xBF :=
            ⟨UInt8.le_trans low_ second.1, UInt8.le_trans second.2 high_⟩
          rw [found]
          refine ⟨Nat.le_add_right_of_le (by decide), ?_, ?_, ?_⟩
          · simp only [List.length_cons, List.length_append]
            omega
          · intro whole
            have both : 2 + follow.length = 3 := of_decide_eq_true whole
            obtain ⟨d, rfl⟩ := List.length_eq_one_iff.mp (show follow.length = 1 by omega)
            exact isChar_three first second' (fun short => UInt8.le_trans (notShort short) second.1)
              (fun surrogate => UInt8.le_trans second.2 (noSurrogate surrogate))
              (continue_ d List.mem_cons_self)
          · intro _
            show 2 + follow.length ≤ 3
            omega
      · rcases front_long rest begins (by decide) with found |
          ⟨c, more, follow, rfl, second, ⟨after, rfl⟩, few, continue_, found⟩
        · rw [found]
          exact alone
        · have second' : 0x80 ≤ c ∧ c ≤ 0xBF :=
            ⟨UInt8.le_trans low_ second.1, UInt8.le_trans second.2 high_⟩
          rw [found]
          refine ⟨Nat.le_add_right_of_le (by decide), ?_, ?_, ?_⟩
          · simp only [List.length_cons, List.length_append]
            omega
          · intro whole
            have both : 2 + follow.length = 4 := of_decide_eq_true whole
            obtain ⟨d, e, rfl⟩ := List.length_eq_two.mp (show follow.length = 2 by omega)
            exact isChar_four first second' (fun short => UInt8.le_trans (notShort short) second.1)
              (fun above => UInt8.le_trans second.2 (notAbove above))
              (continue_ d List.mem_cons_self)
              (continue_ e (List.mem_cons_of_mem _ List.mem_cons_self))
          · intro partial_
            have notWhole : ¬ 2 + follow.length = 4 := of_decide_eq_false partial_
            show 2 + follow.length ≤ 3
            omega

/-! ## The pieces -/

/-- The pieces of the bytes: how long each is, and whether it is a character. -/
def pieces (bytes : Bytes) : List (Nat × Bool) :=
  cut bytes.length bytes
where
  cut : Nat → Bytes → List (Nat × Bool)
    | 0, _ => []
    | _, [] => []
    | rounds + 1, bytes => front bytes :: cut rounds (bytes.drop (front bytes).1)

theorem cut_cons (rounds : Nat) (b : UInt8) (rest : Bytes) : pieces.cut (rounds + 1) (b :: rest) =
    front (b :: rest) :: pieces.cut rounds ((b :: rest).drop (front (b :: rest)).1) := rfl

theorem loop_cons (rounds : Nat) (b : UInt8) (rest : Bytes) :
    fromUtf8Lossy.loop (rounds + 1) (b :: rest) =
      (if (front (b :: rest)).2 then
          (fromUtf8 ((b :: rest).take (front (b :: rest)).1)).getD []
        else [Char.ofNat 0xFFFD]) ++
        fromUtf8Lossy.loop rounds ((b :: rest).drop (front (b :: rest)).1) := rfl

/-- How many bytes a piece is read as: itself, or U+FFFD. -/
def readLength (piece : Nat × Bool) : Nat :=
  if piece.2 then piece.1 else 3

/-- A piece is not empty, and is not longer than what it is read as. -/
theorem mem_cut {piece : Nat × Bool} {rounds : Nat} {bytes : Bytes}
    (member : piece ∈ pieces.cut rounds bytes) : 1 ≤ piece.1 ∧ piece.1 ≤ readLength piece := by
  induction rounds generalizing bytes with
  | zero => exact absurd member List.not_mem_nil
  | succ rounds ih =>
      cases bytes with
      | nil => exact absurd member List.not_mem_nil
      | cons b rest =>
          rcases List.mem_cons.mp member with rfl | member
          · obtain ⟨some_, _, _, few⟩ := front_cons b rest
            refine ⟨some_, ?_⟩
            rw [readLength]
            split
            · exact le_refl _
            · next notWhole => exact few (Bool.eq_false_iff.mpr notWhole)
          · exact ih member

/-- The lengths of the pieces, and of what they are read as, add up. -/
theorem length_cut {rounds : Nat} {bytes : Bytes} (enough : bytes.length ≤ rounds) :
    bytes.length = ((pieces.cut rounds bytes).map Prod.fst).sum ∧
      (toUtf8 (fromUtf8Lossy.loop rounds bytes)).length =
        ((pieces.cut rounds bytes).map readLength).sum := by
  induction rounds generalizing bytes with
  | zero =>
      have none_ : bytes = [] := List.eq_nil_of_length_eq_zero (by omega)
      subst none_
      exact ⟨rfl, rfl⟩
  | succ rounds ih =>
      cases bytes with
      | nil => exact ⟨rfl, rfl⟩
      | cons b rest =>
          obtain ⟨some_, within, whole, _⟩ := front_cons b rest
          have shorter : ((b :: rest).drop (front (b :: rest)).1).length ≤ rounds := by
            rw [List.length_drop]
            omega
          obtain ⟨length_, read_⟩ := ih shorter
          rw [List.length_drop] at length_
          constructor
          · rw [cut_cons, List.map_cons, List.sum_cons, ← length_]
            omega
          · rw [loop_cons, cut_cons, List.map_cons, List.sum_cons, ← read_, toUtf8,
              List.flatMap_append, List.length_append]
            congr 1
            rw [readLength]
            split
            · next isWhole =>
                obtain ⟨c, encoded⟩ := whole isWhole
                have read : fromUtf8 (String.utf8EncodeChar c) = some [c] := by
                  rw [← fromUtf8_toUtf8 [c], toUtf8, List.flatMap_singleton]
                have size := congrArg List.length encoded
                rw [List.length_take, Nat.min_eq_left within] at size
                rw [encoded, read, Option.getD_some, List.flatMap_singleton, ← size]
            · rfl

/-- **How long the text is**: as long as what the pieces are read as. -/
theorem length_fromUtf8Lossy (bytes : Bytes) :
    (toUtf8 (fromUtf8Lossy bytes)).length = ((pieces bytes).map readLength).sum :=
  (length_cut (le_refl _)).2

theorem length_eq_pieces (bytes : Bytes) : bytes.length = ((pieces bytes).map Prod.fst).sum :=
  (length_cut (le_refl _)).1

/-- Sums of lengths none of which is above its fellow are in order only if all are equal. -/
theorem sum_map_le_iff {α : Type _} {f g : α → Nat} {l : List α} (below : ∀ a ∈ l, f a ≤ g a) :
    (l.map g).sum ≤ (l.map f).sum ↔ ∀ a ∈ l, g a = f a := by
  induction l with
  | nil => simp
  | cons a l ih =>
      have rest := ih fun b member => below b (List.mem_cons_of_mem a member)
      have here := below a List.mem_cons_self
      have all : (l.map f).sum ≤ (l.map g).sum :=
        List.sum_le_sum fun b member => below b (List.mem_cons_of_mem a member)
      rw [List.map_cons, List.map_cons, List.sum_cons, List.sum_cons, List.forall_mem_cons, ← rest]
      omega

/-- A text read with replacements is never shorter than the bytes. -/
theorem length_le_fromUtf8Lossy (bytes : Bytes) :
    bytes.length ≤ (toUtf8 (fromUtf8Lossy bytes)).length := by
  rw [length_fromUtf8Lossy, length_eq_pieces]
  exact List.sum_le_sum fun piece member => (mem_cut member).2

/-- **No longer than the bytes**: exactly if the pieces that are no character have three bytes. -/
theorem length_fromUtf8Lossy_le_iff (bytes : Bytes) :
    (toUtf8 (fromUtf8Lossy bytes)).length ≤ bytes.length ↔
      ∀ piece ∈ pieces bytes, piece.2 = false → piece.1 = 3 := by
  rw [length_fromUtf8Lossy, length_eq_pieces,
    sum_map_le_iff (l := pieces bytes) fun piece member => (mem_cut member).2]
  refine forall₂_congr fun piece _ => ?_
  rw [readLength]
  cases piece.2 with
  | true => simp
  | false => simp [eq_comm]

end Squrust.Foundation.Text
