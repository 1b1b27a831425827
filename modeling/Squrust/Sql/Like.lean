import Squrust.Foundation.Lowercase
import Squrust.Foundation.Wildcards
import Squrust.Sql.Eval

/-!
# LIKE

The matcher backtracks over the splits of a text, on small letters: it decides the
language of the small pattern, letter for letter (`likeRec_iff`).

LIKE is meant to ignore the case of ASCII letters, and ignores that of all letters.
It is right on a pattern and on a text without capitals outside ASCII, and every
other pattern or text is taken wrongly beside some partner.
-/

set_option autoImplicit false

namespace Squrust.Sql

open Squrust.Foundation

/-! ## Languages -/

/-- What a character of a pattern stands for when texts are small. -/
def exactItem (c : Char) : Wildcard Char :=
  if c = '%' then .gap else if c = '_' then .one Set.univ else .one {c}

/-- What a character of a LIKE pattern stands for: a letter in any ASCII case. -/
def likeItem (c : Char) : Wildcard Char :=
  if c = '%' then .gap
  else if c = '_' then .one Set.univ
  else .one {d | Text.asciiLower d = Text.asciiLower c}

/-- The texts that a pattern describes. -/
def likeLanguage (pattern : Text) : Language Char := Wildcard.matched (pattern.map likeItem)

theorem anySuffix_iff {holds : Text → Bool} {items : List (Wildcard Char)} {t : Text}
    (decides : ∀ t, holds t = true ↔ t ∈ Wildcard.matched items) :
    anySuffix holds t = true ↔ t ∈ Wildcard.matched (.gap :: items) := by
  induction t with
  | nil => rw [anySuffix, decides, Wildcard.nil_mem_gap]
  | cons c t ih => rw [anySuffix, Bool.or_eq_true, decides, ih, Wildcard.cons_mem_gap]

/-- The recursion decides the language of its pattern, letter for letter. -/
theorem likeRec_iff {p t : Text} :
    likeRec p t = true ↔ t ∈ Wildcard.matched (p.map exactItem) := by
  induction p generalizing t with
  | nil => rw [List.map_nil, Wildcard.mem_matched_nil, likeRec, decide_eq_true_eq]
  | cons c p ih =>
      rw [List.map_cons]
      by_cases percent : c = '%'
      · subst percent
        exact anySuffix_iff fun t => ih
      · rw [likeRec.eq_3 c p (fun same => percent same), exactItem, if_neg percent]
        cases t with
        | nil =>
            split
            · exact iff_of_false Bool.false_ne_true Wildcard.nil_not_mem_one
            · exact iff_of_false Bool.false_ne_true Wildcard.nil_not_mem_one
        | cons d t =>
            rw [Bool.and_eq_true, Bool.or_eq_true, decide_eq_true_eq, decide_eq_true_eq, ih]
            split
            · next any => simp only [Wildcard.cons_mem_one, any, Set.mem_univ, true_or]
            · next other =>
                simp only [Wildcard.cons_mem_one, other, false_or, Set.mem_singleton_iff]

theorem likeRec_self (p : Text) : likeRec p p = true := by
  rw [likeRec_iff]
  induction p with
  | nil => exact Wildcard.mem_matched_nil.mpr rfl
  | cons c p ih =>
      rw [List.map_cons, exactItem]
      split
      · exact Wildcard.mem_matched_cons.mpr ⟨[c], trivial, p, ih, rfl⟩
      · split
        · exact Wildcard.cons_mem_one.mpr ⟨Set.mem_univ c, ih⟩
        · exact Wildcard.cons_mem_one.mpr ⟨rfl, ih⟩

/-- Only ASCII letters change, into ASCII letters. -/
theorem asciiLower_cases (c : Char) :
    Text.asciiLower c = c ∨
      97 ≤ (Text.asciiLower c).toNat ∧ (Text.asciiLower c).toNat ≤ 122 := by
  by_cases capital : 'A' ≤ c ∧ c ≤ 'Z'
  · right
    have above : 65 ≤ c.toNat := capital.1
    have below : c.toNat ≤ 90 := capital.2
    have valid : (c.toNat + 32).isValidChar := .inl (by omega)
    have code : (Char.ofNat (c.toNat + 32)).toNat = c.toNat + 32 := by
      unfold Char.ofNat
      rw [dif_pos valid]
      rfl
    rw [Text.asciiLower, if_pos capital, code]
    constructor
    · omega
    · omega
  · exact .inl (if_neg capital)

/-- Making letters small leaves the signs of a pattern alone. -/
theorem asciiLower_eq_iff {c sign : Char} (low : sign.toNat < 65) : Text.asciiLower c = sign ↔ c = sign := by
  constructor
  · rintro rfl
    rcases asciiLower_cases c with same | ⟨far, -⟩
    · exact same.symm
    · omega
  · rintro rfl
    unfold Text.asciiLower
    rw [if_neg]
    rintro ⟨above, -⟩
    have : 65 ≤ c.toNat := above
    omega

/-- On ASCII small letters the recursion decides the language of LIKE. -/
theorem likeRec_asciiLowercase {p t : Text} :
    likeRec (Text.toAsciiLowercase p) (Text.toAsciiLowercase t) = true ↔ t ∈ likeLanguage p := by
  have items : (Wildcard.comap Text.asciiLower ∘ exactItem) ∘ Text.asciiLower = likeItem := by
    funext c
    have percent : Text.asciiLower c = '%' ↔ c = '%' := asciiLower_eq_iff (by decide)
    have underscore : Text.asciiLower c = '_' ↔ c = '_' := by
      constructor
      · intro same
        rcases asciiLower_cases c with kept | ⟨far, -⟩
        · exact kept.symm.trans same
        · rw [same] at far
          exact absurd far (by decide)
      · rintro rfl
        decide
    simp only [Function.comp_apply, exactItem, likeItem, percent, underscore]
    split
    · rfl
    · split
      · rfl
      · rfl
  rw [likeRec_iff, Text.toAsciiLowercase, Text.toAsciiLowercase, Wildcard.map_mem_matched,
    List.map_map, List.map_map, items, likeLanguage]

/-! ## Letters outside ASCII -/

/-- LIKE answers as the language of the pattern says. -/
def LikeAgrees (builtins : Builtins) (pattern text : Text) : Prop :=
  likeMatch builtins pattern text = true ↔ text ∈ likeLanguage pattern

/-- The letters that a literal of a pattern stands for. -/
def likeLetters (c : Char) : Set Char :=
  if c = '_' then Set.univ else {d | Text.asciiLower d = Text.asciiLower c}

/-- A gap becomes a place for one letter. -/
def onePlace (c : Char) : Char := if c = '%' then '_' else c

theorem onePlace_ne (c : Char) : onePlace c ≠ '%' := by
  unfold onePlace
  split
  · decide
  · next other => exact other

theorem likeItem_onePlace (c : Char) : likeItem (onePlace c) = .one (likeLetters (onePlace c)) := by
  rw [likeItem, if_neg (onePlace_ne c), likeLetters]
  split
  · rfl
  · rfl

theorem mem_likeLanguage_onePlace {pattern text : Text} :
    text ∈ likeLanguage (pattern.map onePlace) ↔
      List.Forall₂ (fun c d => d ∈ likeLetters (onePlace c)) pattern text := by
  rw [likeLanguage, List.map_map,
    List.map_congr_left (g := fun c => .one (likeLetters (onePlace c))) fun c _ => likeItem_onePlace c]
  exact Wildcard.mem_matched_map_one

section

variable (words : Text.WordCharacters)

/-- A text with capitals outside ASCII is not matched letter by letter by what they become. -/
theorem asciiCapitals_of_forall₂ {before text : Text}
    (places : List.Forall₂ (fun c d => d ∈ likeLetters (onePlace c))
      (Text.lowercaseFrom words before text) text) : Text.AsciiCapitals text := by
  induction text generalizing before with
  | nil =>
      intro c member
      cases member
  | cons c rest ih =>
      have longer := Text.length_le_lowercaseFrom words (c :: before) rest
      have same := places.length_eq
      rw [Text.lowercaseFrom_cons] at places same
      cases piece : Text.lowercasePiece words before c rest with
      | nil => exact absurd piece (Text.lowercasePiece_ne_nil words before c rest)
      | cons d more =>
          rw [piece, List.cons_append] at places
          rw [piece, List.cons_append, List.length_cons, List.length_cons, List.length_append] at same
          obtain rfl : more = [] := List.length_eq_zero_iff.mp (by omega)
          obtain ⟨here, later⟩ := List.forall₂_cons.mp places
          intro e member
          rcases List.mem_cons.mp member with rfl | further
          · intro far
            have member : d ∈ Text.lowercasePiece words before e rest := by
              rw [piece]
              exact List.mem_cons_self
            obtain ⟨small, rfl | letter⟩ := Text.mem_lowercasePiece words member
            · exact small
            · have noSign : d ≠ '%' ∧ d ≠ '_' := by
                constructor
                · rintro rfl
                  exact absurd letter (by decide)
                · rintro rfl
                  exact absurd letter (by decide)
              rw [onePlace, if_neg noSign.1, likeLetters, if_neg noSign.2, Set.mem_ofPred_eq,
                Text.asciiLower_of_far far] at here
              rcases asciiLower_cases d with kept | ⟨-, ascii⟩
              · rwa [here.trans kept]
              · rw [← here] at ascii
                omega
          · exact ih later e further

variable (builtins : Builtins)

/-- Libraries with the small letters of Unicode. -/
def Builtins.withUnicode : Builtins := { builtins with toLowercase := Text.toLowercase words }

theorem likeMatch_withUnicode (pattern text : Text) :
    likeMatch (builtins.withUnicode words) pattern text =
      likeRec (Text.toLowercase words pattern) (Text.toLowercase words text) := rfl

/-- Beside texts and patterns without capitals outside ASCII, LIKE is right. -/
theorem likeAgrees_of_ascii {pattern text : Text} (left : Text.AsciiCapitals pattern)
    (right : Text.AsciiCapitals text) :
    LikeAgrees (builtins.withUnicode words) pattern text := by
  rw [LikeAgrees, likeMatch_withUnicode, Text.toLowercase, Text.toLowercase,
    Text.lowercaseFrom_of_ascii words left, Text.lowercaseFrom_of_ascii words right]
  exact likeRec_asciiLowercase

/-- A pattern with another capital matches its small letters, in which the capital is missing. -/
theorem exists_text_of_capital {pattern : Text} (capital : ¬ Text.AsciiCapitals pattern) :
    ∃ text, Text.AsciiCapitals text ∧
      ¬ LikeAgrees (builtins.withUnicode words) pattern text := by
  have small : ∀ d ∈ Text.toLowercase words pattern, Text.IsSmall d := fun d member =>
    Text.mem_lowercaseFrom words member
  refine ⟨Text.toLowercase words pattern, fun d member _ => small d member, fun agrees => capital ?_⟩
  have found : likeMatch (builtins.withUnicode words) pattern
      (Text.toLowercase words pattern) = true := by
    rw [likeMatch_withUnicode, Text.toLowercase_toLowercase]
    exact likeRec_self _
  intro c member far
  have noSign : c ≠ '%' ∧ c ≠ '_' := by
    constructor
    · rintro rfl
      exact absurd far (by decide)
    · rintro rfl
      exact absurd far (by decide)
  have asked : Wildcard.one {d | Text.asciiLower d = Text.asciiLower c} ∈ pattern.map likeItem := by
    refine List.mem_map.mpr ⟨c, member, ?_⟩
    rw [likeItem, if_neg noSign.1, if_neg noSign.2]
  obtain ⟨d, occurs, same⟩ := Wildcard.exists_of_one_mem (agrees.mp found) asked
  rw [Set.mem_ofPred_eq, Text.asciiLower_of_far far] at same
  rcases asciiLower_cases d with kept | ⟨-, ascii⟩
  · rw [← kept.symm.trans same]
    exact small d occurs
  · rw [same] at ascii
    omega

/-- A text with another capital is matched by its small letters, which it does not contain. -/
theorem exists_pattern_of_capital {text : Text} (capital : ¬ Text.AsciiCapitals text) :
    ∃ pattern, Text.AsciiCapitals pattern ∧
      ¬ LikeAgrees (builtins.withUnicode words) pattern text := by
  have small : ∀ d ∈ (Text.toLowercase words text).map onePlace, Text.IsSmall d := by
    intro d member
    obtain ⟨c, occurs, rfl⟩ := List.mem_map.mp member
    unfold onePlace
    split
    · decide
    · exact Text.mem_lowercaseFrom words occurs
  refine ⟨(Text.toLowercase words text).map onePlace, fun d member _ => small d member,
    fun agrees => capital ?_⟩
  have found : likeMatch (builtins.withUnicode words)
      ((Text.toLowercase words text).map onePlace) text = true := by
    have kept : Text.toLowercase words ((Text.toLowercase words text).map onePlace) =
        (Text.toLowercase words text).map onePlace := Text.lowercaseFrom_of_small words small []
    rw [likeMatch_withUnicode, kept, likeRec_iff]
    generalize Text.toLowercase words text = letters
    induction letters with
    | nil => exact Wildcard.mem_matched_nil.mpr rfl
    | cons c letters ih =>
        rw [List.map_cons, List.map_cons, exactItem, if_neg (onePlace_ne c), onePlace]
        by_cases percent : c = '%'
        · rw [if_pos percent, if_pos rfl]
          exact Wildcard.cons_mem_one.mpr ⟨Set.mem_univ c, ih⟩
        · rw [if_neg percent]
          split
          · exact Wildcard.cons_mem_one.mpr ⟨Set.mem_univ c, ih⟩
          · exact Wildcard.cons_mem_one.mpr ⟨rfl, ih⟩
  exact asciiCapitals_of_forall₂ words (mem_likeLanguage_onePlace.mp (agrees.mp found))

/-- LIKE is right on a side for all partners exactly when the side has no capitals outside ASCII. -/
theorem likeMatch_exact :
    (∀ pattern text, Text.AsciiCapitals pattern → Text.AsciiCapitals text →
      LikeAgrees (builtins.withUnicode words) pattern text) ∧
    (∀ pattern, ¬ Text.AsciiCapitals pattern → ∃ text, Text.AsciiCapitals text ∧
      ¬ LikeAgrees (builtins.withUnicode words) pattern text) ∧
    ∀ text, ¬ Text.AsciiCapitals text → ∃ pattern, Text.AsciiCapitals pattern ∧
      ¬ LikeAgrees (builtins.withUnicode words) pattern text :=
  ⟨fun _ _ left right => likeAgrees_of_ascii words builtins left right,
    fun _ capital => exists_text_of_capital words builtins capital,
    fun _ capital => exists_pattern_of_capital words builtins capital⟩

end

/-- Letters of ASCII words. -/
def asciiWords : Text.WordCharacters where
  cased c := 'a' ≤ c && c ≤ 'z' || 'A' ≤ c && c ≤ 'Z'
  caseIgnorable c := c = '\''

theorem likeMatch_exact_hello :
    LikeAgrees (Builtins.bare.withUnicode asciiWords) "HEL%".toList "hello".toList :=
  (likeMatch_exact asciiWords Builtins.bare).1 _ _ (Text.asciiCapitals_of_all (by decide))
    (Text.asciiCapitals_of_all (by decide))

/-- `'É' LIKE 'é'` -/
theorem likeMatch_capital_accent :
    ¬ LikeAgrees (Builtins.bare.withUnicode asciiWords) "é".toList "É".toList := by
  intro agrees
  have member := agrees.mp (by decide +kernel)
  obtain ⟨same, -⟩ := Wildcard.cons_mem_one.mp member
  exact absurd same (by decide)

end Squrust.Sql
