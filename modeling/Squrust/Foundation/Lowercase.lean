import Squrust.Foundation.Text

/-!
# Small letters

`str::to_lowercase`: every character by the table of Unicode 14, where one capital
becomes two characters, and a capital sigma by its place in a word.

Which characters make up a word is left open (`WordCharacters`). It decides the
form of a small sigma and nothing else.
-/

set_option autoImplicit false

namespace Squrust.Foundation.Text

/-! ## The table -/

/-- Every `step`-th code point from `first` to `last` is a capital, with its small letter
`shift` code points away. -/
structure CapitalRange where
  first : Nat
  last : Nat
  step : Nat
  shift : Int

/-- The capitals with a small letter of one character. -/
def capitalRanges : List CapitalRange :=
  [⟨0x41, 0x5A, 1, 32⟩, ⟨0xC0, 0xD6, 1, 32⟩, ⟨0xD8, 0xDE, 1, 32⟩, ⟨0x100, 0x12E, 2, 1⟩,
   ⟨0x132, 0x136, 2, 1⟩, ⟨0x139, 0x147, 2, 1⟩, ⟨0x14A, 0x176, 2, 1⟩, ⟨0x178, 0x178, 1, -121⟩,
   ⟨0x179, 0x17D, 2, 1⟩, ⟨0x181, 0x181, 1, 210⟩, ⟨0x182, 0x184, 2, 1⟩, ⟨0x186, 0x186, 1, 206⟩,
   ⟨0x187, 0x187, 1, 1⟩, ⟨0x189, 0x18A, 1, 205⟩, ⟨0x18B, 0x18B, 1, 1⟩, ⟨0x18E, 0x18E, 1, 79⟩,
   ⟨0x18F, 0x18F, 1, 202⟩, ⟨0x190, 0x190, 1, 203⟩, ⟨0x191, 0x191, 1, 1⟩, ⟨0x193, 0x193, 1, 205⟩,
   ⟨0x194, 0x194, 1, 207⟩, ⟨0x196, 0x196, 1, 211⟩, ⟨0x197, 0x197, 1, 209⟩, ⟨0x198, 0x198, 1, 1⟩,
   ⟨0x19C, 0x19C, 1, 211⟩, ⟨0x19D, 0x19D, 1, 213⟩, ⟨0x19F, 0x19F, 1, 214⟩, ⟨0x1A0, 0x1A4, 2, 1⟩,
   ⟨0x1A6, 0x1A6, 1, 218⟩, ⟨0x1A7, 0x1A7, 1, 1⟩, ⟨0x1A9, 0x1A9, 1, 218⟩, ⟨0x1AC, 0x1AC, 1, 1⟩,
   ⟨0x1AE, 0x1AE, 1, 218⟩, ⟨0x1AF, 0x1AF, 1, 1⟩, ⟨0x1B1, 0x1B2, 1, 217⟩, ⟨0x1B3, 0x1B5, 2, 1⟩,
   ⟨0x1B7, 0x1B7, 1, 219⟩, ⟨0x1B8, 0x1B8, 1, 1⟩, ⟨0x1BC, 0x1BC, 1, 1⟩, ⟨0x1C4, 0x1C4, 1, 2⟩,
   ⟨0x1C5, 0x1C5, 1, 1⟩, ⟨0x1C7, 0x1C7, 1, 2⟩, ⟨0x1C8, 0x1C8, 1, 1⟩, ⟨0x1CA, 0x1CA, 1, 2⟩,
   ⟨0x1CB, 0x1DB, 2, 1⟩, ⟨0x1DE, 0x1EE, 2, 1⟩, ⟨0x1F1, 0x1F1, 1, 2⟩, ⟨0x1F2, 0x1F4, 2, 1⟩,
   ⟨0x1F6, 0x1F6, 1, -97⟩, ⟨0x1F7, 0x1F7, 1, -56⟩, ⟨0x1F8, 0x21E, 2, 1⟩, ⟨0x220, 0x220, 1, -130⟩,
   ⟨0x222, 0x232, 2, 1⟩, ⟨0x23A, 0x23A, 1, 10795⟩, ⟨0x23B, 0x23B, 1, 1⟩, ⟨0x23D, 0x23D, 1, -163⟩,
   ⟨0x23E, 0x23E, 1, 10792⟩, ⟨0x241, 0x241, 1, 1⟩, ⟨0x243, 0x243, 1, -195⟩, ⟨0x244, 0x244, 1, 69⟩,
   ⟨0x245, 0x245, 1, 71⟩, ⟨0x246, 0x24E, 2, 1⟩, ⟨0x370, 0x372, 2, 1⟩, ⟨0x376, 0x376, 1, 1⟩,
   ⟨0x37F, 0x37F, 1, 116⟩, ⟨0x386, 0x386, 1, 38⟩, ⟨0x388, 0x38A, 1, 37⟩, ⟨0x38C, 0x38C, 1, 64⟩,
   ⟨0x38E, 0x38F, 1, 63⟩, ⟨0x391, 0x3A1, 1, 32⟩, ⟨0x3A3, 0x3AB, 1, 32⟩, ⟨0x3CF, 0x3CF, 1, 8⟩,
   ⟨0x3D8, 0x3EE, 2, 1⟩, ⟨0x3F4, 0x3F4, 1, -60⟩, ⟨0x3F7, 0x3F7, 1, 1⟩, ⟨0x3F9, 0x3F9, 1, -7⟩,
   ⟨0x3FA, 0x3FA, 1, 1⟩, ⟨0x3FD, 0x3FF, 1, -130⟩, ⟨0x400, 0x40F, 1, 80⟩, ⟨0x410, 0x42F, 1, 32⟩,
   ⟨0x460, 0x480, 2, 1⟩, ⟨0x48A, 0x4BE, 2, 1⟩, ⟨0x4C0, 0x4C0, 1, 15⟩, ⟨0x4C1, 0x4CD, 2, 1⟩,
   ⟨0x4D0, 0x52E, 2, 1⟩, ⟨0x531, 0x556, 1, 48⟩, ⟨0x10A0, 0x10C5, 1, 7264⟩,
   ⟨0x10C7, 0x10C7, 1, 7264⟩, ⟨0x10CD, 0x10CD, 1, 7264⟩, ⟨0x13A0, 0x13EF, 1, 38864⟩,
   ⟨0x13F0, 0x13F5, 1, 8⟩, ⟨0x1C90, 0x1CBA, 1, -3008⟩, ⟨0x1CBD, 0x1CBF, 1, -3008⟩,
   ⟨0x1E00, 0x1E94, 2, 1⟩, ⟨0x1E9E, 0x1E9E, 1, -7615⟩, ⟨0x1EA0, 0x1EFE, 2, 1⟩,
   ⟨0x1F08, 0x1F0F, 1, -8⟩, ⟨0x1F18, 0x1F1D, 1, -8⟩, ⟨0x1F28, 0x1F2F, 1, -8⟩,
   ⟨0x1F38, 0x1F3F, 1, -8⟩, ⟨0x1F48, 0x1F4D, 1, -8⟩, ⟨0x1F59, 0x1F5F, 2, -8⟩,
   ⟨0x1F68, 0x1F6F, 1, -8⟩, ⟨0x1F88, 0x1F8F, 1, -8⟩, ⟨0x1F98, 0x1F9F, 1, -8⟩,
   ⟨0x1FA8, 0x1FAF, 1, -8⟩, ⟨0x1FB8, 0x1FB9, 1, -8⟩, ⟨0x1FBA, 0x1FBB, 1, -74⟩,
   ⟨0x1FBC, 0x1FBC, 1, -9⟩, ⟨0x1FC8, 0x1FCB, 1, -86⟩, ⟨0x1FCC, 0x1FCC, 1, -9⟩,
   ⟨0x1FD8, 0x1FD9, 1, -8⟩, ⟨0x1FDA, 0x1FDB, 1, -100⟩, ⟨0x1FE8, 0x1FE9, 1, -8⟩,
   ⟨0x1FEA, 0x1FEB, 1, -112⟩, ⟨0x1FEC, 0x1FEC, 1, -7⟩, ⟨0x1FF8, 0x1FF9, 1, -128⟩,
   ⟨0x1FFA, 0x1FFB, 1, -126⟩, ⟨0x1FFC, 0x1FFC, 1, -9⟩, ⟨0x2126, 0x2126, 1, -7517⟩,
   ⟨0x212A, 0x212A, 1, -8383⟩, ⟨0x212B, 0x212B, 1, -8262⟩, ⟨0x2132, 0x2132, 1, 28⟩,
   ⟨0x2160, 0x216F, 1, 16⟩, ⟨0x2183, 0x2183, 1, 1⟩, ⟨0x24B6, 0x24CF, 1, 26⟩,
   ⟨0x2C00, 0x2C2F, 1, 48⟩, ⟨0x2C60, 0x2C60, 1, 1⟩, ⟨0x2C62, 0x2C62, 1, -10743⟩,
   ⟨0x2C63, 0x2C63, 1, -3814⟩, ⟨0x2C64, 0x2C64, 1, -10727⟩, ⟨0x2C67, 0x2C6B, 2, 1⟩,
   ⟨0x2C6D, 0x2C6D, 1, -10780⟩, ⟨0x2C6E, 0x2C6E, 1, -10749⟩, ⟨0x2C6F, 0x2C6F, 1, -10783⟩,
   ⟨0x2C70, 0x2C70, 1, -10782⟩, ⟨0x2C72, 0x2C72, 1, 1⟩, ⟨0x2C75, 0x2C75, 1, 1⟩,
   ⟨0x2C7E, 0x2C7F, 1, -10815⟩, ⟨0x2C80, 0x2CE2, 2, 1⟩, ⟨0x2CEB, 0x2CED, 2, 1⟩,
   ⟨0x2CF2, 0x2CF2, 1, 1⟩, ⟨0xA640, 0xA66C, 2, 1⟩, ⟨0xA680, 0xA69A, 2, 1⟩, ⟨0xA722, 0xA72E, 2, 1⟩,
   ⟨0xA732, 0xA76E, 2, 1⟩, ⟨0xA779, 0xA77B, 2, 1⟩, ⟨0xA77D, 0xA77D, 1, -35332⟩,
   ⟨0xA77E, 0xA786, 2, 1⟩, ⟨0xA78B, 0xA78B, 1, 1⟩, ⟨0xA78D, 0xA78D, 1, -42280⟩,
   ⟨0xA790, 0xA792, 2, 1⟩, ⟨0xA796, 0xA7A8, 2, 1⟩, ⟨0xA7AA, 0xA7AA, 1, -42308⟩,
   ⟨0xA7AB, 0xA7AB, 1, -42319⟩, ⟨0xA7AC, 0xA7AC, 1, -42315⟩, ⟨0xA7AD, 0xA7AD, 1, -42305⟩,
   ⟨0xA7AE, 0xA7AE, 1, -42308⟩, ⟨0xA7B0, 0xA7B0, 1, -42258⟩, ⟨0xA7B1, 0xA7B1, 1, -42282⟩,
   ⟨0xA7B2, 0xA7B2, 1, -42261⟩, ⟨0xA7B3, 0xA7B3, 1, 928⟩, ⟨0xA7B4, 0xA7C2, 2, 1⟩,
   ⟨0xA7C4, 0xA7C4, 1, -48⟩, ⟨0xA7C5, 0xA7C5, 1, -42307⟩, ⟨0xA7C6, 0xA7C6, 1, -35384⟩,
   ⟨0xA7C7, 0xA7C9, 2, 1⟩, ⟨0xA7D0, 0xA7D0, 1, 1⟩, ⟨0xA7D6, 0xA7D8, 2, 1⟩, ⟨0xA7F5, 0xA7F5, 1, 1⟩,
   ⟨0xFF21, 0xFF3A, 1, 32⟩, ⟨0x10400, 0x10427, 1, 40⟩, ⟨0x104B0, 0x104D3, 1, 40⟩,
   ⟨0x10570, 0x1057A, 1, 39⟩, ⟨0x1057C, 0x1058A, 1, 39⟩, ⟨0x1058C, 0x10592, 1, 39⟩,
   ⟨0x10594, 0x10595, 1, 39⟩, ⟨0x10C80, 0x10CB2, 1, 64⟩, ⟨0x118A0, 0x118BF, 1, 32⟩,
   ⟨0x16E40, 0x16E5F, 1, 32⟩, ⟨0x1E900, 0x1E921, 1, 34⟩]

def CapitalRange.covers (range : CapitalRange) (n : Nat) : Bool :=
  range.first ≤ n && n ≤ range.last && (n - range.first) % range.step == 0

def findCapital (n : Nat) : Option CapitalRange := capitalRanges.find? fun range => range.covers n

/-- The small letter of a character. -/
def charLowercase (c : Char) : Text :=
  if c = 'İ' then ['i', Char.ofNat 0x307]
  else
    match findCapital c.toNat with
    | some range => [Char.ofNat (c.toNat + range.shift).toNat]
    | none => [c]

/-! ## Texts -/

/-- Unicode's Cased and Case_Ignorable. -/
structure WordCharacters where
  cased : Char → Bool
  caseIgnorable : Char → Bool

variable (words : WordCharacters)

def caseIgnorableThenCased (text : Text) : Bool :=
  (text.dropWhile words.caseIgnorable).head?.any words.cased

/-- `map_uppercase_sigma`, with what stands before it read backwards. -/
def mapUppercaseSigma (before behind : Text) : Char :=
  if caseIgnorableThenCased words before && !caseIgnorableThenCased words behind then 'ς' else 'σ'

/-- The small letters of a text, and what stands before it, read backwards. -/
def lowercaseFrom : Text → Text → Text
  | _, [] => []
  | before, c :: rest =>
      (if c = 'Σ' then [mapUppercaseSigma words before rest] else charLowercase c) ++
        lowercaseFrom (c :: before) rest

/-- `str::to_lowercase` -/
def toLowercase (text : Text) : Text := lowercaseFrom words [] text

/-! ## Small letters have no small letters -/

/-- Where the small letters of a range are. -/
def CapitalRange.small (range : CapitalRange) : CapitalRange :=
  ⟨(range.first + range.shift).toNat, (range.last + range.shift).toNat, range.step, 0⟩

/-- The capital that becomes two characters. -/
def dottedCapital : CapitalRange := ⟨0x130, 0x130, 2, 0⟩

/-- Two ranges with no code point in common, by their ends or by parity. -/
def CapitalRange.apart (range other : CapitalRange) : Bool :=
  Nat.blt range.last other.first || Nat.blt other.last range.first ||
    (Nat.beq other.step 2 && (Nat.beq range.step 2 || Nat.beq range.first range.last) &&
      Nat.beq ((range.first + other.first) % 2) 1)

theorem small_apart : (capitalRanges.map CapitalRange.small).all (fun small =>
    (dottedCapital :: capitalRanges).all fun other => small.apart other) = true := by
  decide +kernel

/-- Small letters are behind the ASCII capitals, and characters. -/
theorem small_valid : (capitalRanges.map CapitalRange.small).all (fun small =>
    Nat.ble 97 small.first && Nat.ble 1 small.step &&
      (Nat.blt small.last 0xD800 || Nat.blt 0xDFFF small.first && Nat.blt small.last 0x110000)) =
      true := by
  decide +kernel

theorem CapitalRange.covers_iff {range : CapitalRange} {n : Nat} :
    range.covers n = true ↔
      range.first ≤ n ∧ n ≤ range.last ∧ (n - range.first) % range.step = 0 := by
  simp only [covers, Bool.and_eq_true, decide_eq_true_eq, beq_iff_eq, and_assoc]

theorem findCapital_covers {n : Nat} {range : CapitalRange} (found : findCapital n = some range) :
    range ∈ capitalRanges ∧ range.covers n = true := by
  have covered := List.find?_some found
  exact ⟨List.mem_of_find?_eq_some found, covered⟩

/-- The small letter of a capital is a character behind the ASCII capitals. -/
theorem small_bounds {range : CapitalRange} (listed : range ∈ capitalRanges) {n : Nat}
    (covered : range.covers n = true) :
    97 ≤ (n + range.shift).toNat ∧ (n + range.shift).toNat.isValidChar := by
  have valid := List.all_eq_true.mp small_valid _ (List.mem_map_of_mem listed)
  simp only [CapitalRange.small, Bool.and_eq_true, Bool.or_eq_true, Nat.ble_eq, Nat.blt_eq] at valid
  obtain ⟨above, below, -⟩ := CapitalRange.covers_iff.mp covered
  obtain ⟨⟨far, -⟩, valid⟩ := valid
  constructor
  · omega
  · unfold Nat.isValidChar
    omega

/-- A small letter is in no range of capitals. -/
theorem small_not_covered {range other : CapitalRange} (listed : range ∈ capitalRanges)
    (member : other ∈ dottedCapital :: capitalRanges) {n : Nat} (covered : range.covers n = true) :
    other.covers (n + range.shift).toNat = false := by
  have valid := List.all_eq_true.mp small_valid _ (List.mem_map_of_mem listed)
  have apart := List.all_eq_true.mp
    (List.all_eq_true.mp small_apart _ (List.mem_map_of_mem listed)) _ member
  simp only [CapitalRange.small, Bool.and_eq_true, Nat.ble_eq] at valid
  simp only [CapitalRange.small, CapitalRange.apart, Bool.or_eq_true, Bool.and_eq_true, Nat.blt_eq,
    Nat.beq_eq] at apart
  obtain ⟨above, below, steps⟩ := CapitalRange.covers_iff.mp covered
  rw [Bool.eq_false_iff, ne_eq, CapitalRange.covers_iff]
  rintro ⟨above', below', steps'⟩
  rcases apart with (before | behind) | ⟨⟨otherTwo, two⟩, parity⟩
  · omega
  · omega
  · rw [otherTwo] at steps'
    rcases two with two | single
    · rw [two] at steps
      omega
    · omega

theorem findCapital_small {range : CapitalRange} (listed : range ∈ capitalRanges) {n : Nat}
    (covered : range.covers n = true) : findCapital (n + range.shift).toNat = none := by
  refine List.find?_eq_none.mpr fun other member => ?_
  rw [small_not_covered listed (List.mem_cons_of_mem _ member) covered]
  exact Bool.false_ne_true

/-- A character that is its own small letter. -/
def IsSmall (c : Char) : Prop := charLowercase c = [c]

instance (c : Char) : Decidable (IsSmall c) := inferInstanceAs (Decidable (charLowercase c = [c]))

theorem isSmall_of_findCapital {c : Char} (dotted : c ≠ 'İ') (none : findCapital c.toNat = none) :
    IsSmall c := by
  unfold IsSmall charLowercase
  rw [if_neg dotted, none]

theorem IsSmall.ne_sigma {c : Char} (small : IsSmall c) : c ≠ 'Σ' := by
  rintro rfl
  exact absurd small (by decide)

/-- What a character becomes: two characters, itself, or one that is a small letter. -/
theorem charLowercase_cases (c : Char) :
    charLowercase c = ['i', Char.ofNat 0x307] ∨ IsSmall c ∨
      ∃ d, charLowercase c = [d] ∧ IsSmall d ∧ 97 ≤ d.toNat := by
  by_cases dotted : c = 'İ'
  · exact .inl (if_pos dotted)
  · cases found : findCapital c.toNat with
    | none => exact .inr (.inl (isSmall_of_findCapital dotted found))
    | some range =>
        obtain ⟨listed, covered⟩ := findCapital_covers found
        obtain ⟨far, valid⟩ := small_bounds listed covered
        have code : (Char.ofNat (c.toNat + range.shift).toNat).toNat = (c.toNat + range.shift).toNat := by
          unfold Char.ofNat
          rw [dif_pos valid]
          rfl
        refine .inr (.inr ⟨Char.ofNat (c.toNat + range.shift).toNat, ?_, ?_, ?_⟩)
        · unfold charLowercase
          rw [if_neg dotted, found]
        · refine isSmall_of_findCapital ?_ ?_
          · intro same
            have outside := small_not_covered listed List.mem_cons_self covered
            rw [← code, same] at outside
            exact absurd outside (by decide)
          · rw [code]
            exact findCapital_small listed covered
        · rw [code]
          exact far

theorem mem_charLowercase {c d : Char} (member : d ∈ charLowercase c) :
    IsSmall d ∧ (d = c ∨ 97 ≤ d.toNat) := by
  rcases charLowercase_cases c with two | small | ⟨other, one, small, far⟩
  · rw [two] at member
    rcases List.mem_cons.mp member with rfl | second
    · exact ⟨by decide, .inr (by decide)⟩
    · obtain rfl := List.mem_singleton.mp second
      exact ⟨by decide, .inr (by decide)⟩
  · rw [small] at member
    obtain rfl := List.mem_singleton.mp member
    exact ⟨small, .inl rfl⟩
  · rw [one] at member
    obtain rfl := List.mem_singleton.mp member
    exact ⟨small, .inr far⟩

theorem charLowercase_ascii {c : Char} (ascii : c.toNat < 128) : charLowercase c = [asciiLower c] := by
  have table : ∀ n < 128, charLowercase (Char.ofNat n) = [asciiLower (Char.ofNat n)] := by
    decide +kernel
  have here := table c.toNat ascii
  rwa [Char.ofNat_toNat] at here

theorem charLowercase_ne_nil (c : Char) : charLowercase c ≠ [] := by
  rcases charLowercase_cases c with two | small | ⟨other, one, -, -⟩
  · exact fun nil => by cases two.symm.trans nil
  · exact fun nil => by cases small.symm.trans nil
  · exact fun nil => by cases one.symm.trans nil

/-! ## Small texts -/

theorem mapUppercaseSigma_small (before behind : Text) :
    IsSmall (mapUppercaseSigma words before behind) ∧
      97 ≤ (mapUppercaseSigma words before behind).toNat := by
  unfold mapUppercaseSigma
  split
  · exact ⟨by decide, by decide⟩
  · exact ⟨by decide, by decide⟩

/-- What the first character of a text becomes. -/
def lowercasePiece (before : Text) (c : Char) (rest : Text) : Text :=
  if c = 'Σ' then [mapUppercaseSigma words before rest] else charLowercase c

theorem lowercaseFrom_cons (before : Text) (c : Char) (rest : Text) :
    lowercaseFrom words before (c :: rest) =
      lowercasePiece words before c rest ++ lowercaseFrom words (c :: before) rest := rfl

theorem mem_lowercasePiece {before rest : Text} {c d : Char}
    (member : d ∈ lowercasePiece words before c rest) : IsSmall d ∧ (d = c ∨ 97 ≤ d.toNat) := by
  unfold lowercasePiece at member
  split at member
  · obtain rfl := List.mem_singleton.mp member
    exact ⟨(mapUppercaseSigma_small words before rest).1,
      .inr (mapUppercaseSigma_small words before rest).2⟩
  · exact mem_charLowercase member

theorem lowercasePiece_ne_nil (before : Text) (c : Char) (rest : Text) :
    lowercasePiece words before c rest ≠ [] := by
  unfold lowercasePiece
  split
  · exact List.cons_ne_nil _ _
  · exact charLowercase_ne_nil c

theorem lowercasePiece_small {c : Char} (small : IsSmall c) (before rest : Text) :
    lowercasePiece words before c rest = [c] :=
  (if_neg small.ne_sigma).trans small

theorem lowercasePiece_ascii {c : Char} (ascii : c.toNat < 128) (before rest : Text) :
    lowercasePiece words before c rest = [asciiLower c] := by
  have noSigma : c ≠ 'Σ' := by
    rintro rfl
    exact absurd ascii (by decide)
  exact (if_neg noSigma).trans (charLowercase_ascii ascii)

/-- What comes out has no capitals left. -/
theorem mem_lowercaseFrom {before text : Text} {d : Char}
    (member : d ∈ lowercaseFrom words before text) : IsSmall d := by
  induction text generalizing before with
  | nil => cases member
  | cons c rest ih =>
      rw [lowercaseFrom_cons, List.mem_append] at member
      rcases member with here | later
      · exact (mem_lowercasePiece words here).1
      · exact ih later

theorem lowercaseFrom_of_small {text : Text} (small : ∀ c ∈ text, IsSmall c) (before : Text) :
    lowercaseFrom words before text = text := by
  induction text generalizing before with
  | nil => rfl
  | cons c rest ih =>
      rw [lowercaseFrom_cons, lowercasePiece_small words (small c List.mem_cons_self),
        ih fun other later => small other (List.mem_cons_of_mem _ later)]
      rfl

/-- The letters outside ASCII are small. -/
def AsciiCapitals (text : Text) : Prop := ∀ c ∈ text, 128 ≤ c.toNat → IsSmall c

theorem asciiCapitals_of_all {text : Text} (ascii : text.all (fun c => c.toNat < 128) = true) :
    AsciiCapitals text := by
  intro c member far
  have near := of_decide_eq_true (List.all_eq_true.mp ascii c member)
  omega

theorem asciiLower_of_far {c : Char} (far : 128 ≤ c.toNat) : asciiLower c = c := by
  unfold asciiLower
  rw [if_neg]
  rintro ⟨-, below⟩
  have : c.toNat ≤ 90 := below
  omega

/-- Where only ASCII letters are capitals, they alone change. -/
theorem lowercaseFrom_of_ascii {text : Text} (ascii : AsciiCapitals text) (before : Text) :
    lowercaseFrom words before text = toAsciiLowercase text := by
  induction text generalizing before with
  | nil => rfl
  | cons c rest ih =>
      rw [lowercaseFrom_cons, ih fun other later => ascii other (List.mem_cons_of_mem _ later)]
      rcases Nat.lt_or_ge c.toNat 128 with here | far
      · rw [lowercasePiece_ascii words here]
        rfl
      · rw [lowercasePiece_small words (ascii c List.mem_cons_self far), toAsciiLowercase,
          toAsciiLowercase, List.map_cons, asciiLower_of_far far]
        rfl

theorem toLowercase_toLowercase (text : Text) :
    toLowercase words (toLowercase words text) = toLowercase words text :=
  lowercaseFrom_of_small words (fun _ member => mem_lowercaseFrom words member) []

/-- A text does not get shorter. -/
theorem length_le_lowercaseFrom (before text : Text) :
    text.length ≤ (lowercaseFrom words before text).length := by
  induction text generalizing before with
  | nil => exact Nat.zero_le _
  | cons c rest ih =>
      have longer := ih (c :: before)
      have piece := List.length_pos_iff.mpr (lowercasePiece_ne_nil words before c rest)
      rw [lowercaseFrom_cons, List.length_cons, List.length_append]
      omega

end Squrust.Foundation.Text
