import Squrust.Foundation.Outcome
import Squrust.Foundation.Text
import Squrust.Foundation.Wildcards

/-!
# GLOB

The matcher backtracks over the splits of a text and scans classes by position. Its
pattern is read once from the left (`readGlob`), and it decides the language of what
was read: the scanner of classes reads the same members up to the same bracket
(`ClassRead`), so that no position is out of range.
-/

set_option autoImplicit false

namespace Squrust.Sql

open Squrust.Foundation

/-! ## Matching -/

/-- `p[i]` -/
def charAt (p : Text) (i : Nat) : Outcome Empty Char := Outcome.orPanic "index out of bounds" p[i]?

/-- `&p[start..]` -/
def charsFrom (p : Text) (start : Nat) : Outcome Empty Text :=
  if start ≤ p.length then .ok (p.drop start) else Outcome.panic "range start index out of range"

/-- Whether a range `a-b` stands at position `i`. -/
def rangeAt (p : Text) (i : Nat) : Outcome Empty Bool :=
  if i + 2 < p.length then do
    let middle ← charAt p (i + 1)
    if middle = '-' then do
      let last ← charAt p (i + 2)
      return last ≠ ']'
    else return false
  else return false

/-- The loop of `class_match`, from position `i` on. -/
def classLoop (p : Text) (ch : Char) (negate : Bool) (start i : Nat) (found : Bool) :
    Outcome Empty (Option (Bool × Nat)) :=
  if i < p.length then do
    let c ← charAt p i
    -- a bracket as the very first member is a literal
    if c = ']' ∧ start < i then return some (found != negate, i + 1)
    else do
      let range ← rangeAt p i
      if range then do
        let last ← charAt p (i + 2)
        classLoop p ch negate start (i + 3) (found || c ≤ ch && ch ≤ last)
      else classLoop p ch negate start (i + 1) (found || c = ch)
  else return none
termination_by p.length - i

/-- Match a class that starts behind `[`: whether it matched, and what it takes of the pattern up
to the closing bracket. -/
def classMatch (p : Text) (ch : Char) : Outcome Empty (Option (Bool × Nat)) :=
  let negate := p.head? == some '^'
  let start := if negate then 1 else 0
  classLoop p ch negate start start false

def globRec : Text → Text → Outcome Empty Bool
  | [], t => .ok (t = [])
  | '*' :: p, t => do
      let rest ← globRec p t
      if rest then return true
      else
        match t with
        | [] => return false
        | _ :: t => globRec ('*' :: p) t
  | '?' :: p, t =>
      match t with
      | [] => .ok false
      | _ :: t => globRec p t
  | '[' :: p, t =>
      match t with
      | [] => .ok false
      | c :: t => do
          match ← classMatch p c with
          | some (found, off) =>
              if found then do
                let rest ← charsFrom ('[' :: p) (1 + off)
                globRec rest t
              else return false
          | none => return false
  | c :: p, t =>
      match t with
      | [] => .ok false
      | d :: t => if c = d then globRec p t else .ok false
termination_by p t => (t.length, p.length)

/-- `GLOB` -/
def globMatch (pattern text : Text) : Outcome Empty Bool := globRec pattern text

/-! ## The language -/

/-- The members of a class, from the left: a range, or a character. -/
def classMembers : Text → Set Char
  | a :: '-' :: b :: rest => {c | a ≤ c ∧ c ≤ b} ∪ classMembers rest
  | a :: rest => {a} ∪ classMembers rest
  | [] => ∅

/-- A class without its opening bracket: the letters it stands for, and what is behind it. Its
members end at the first closing bracket that is not the first of them. -/
def readClass (p : Text) : Option (Set Char × Text) :=
  let negated := p.head? = some '^'
  match if negated then p.tail else p with
  | [] => none
  | first :: more => do
      let (others, behind) ← Text.splitAtFirst (fun c => c = ']') more
      let letters := classMembers (first :: others)
      return (if negated then {c | c ∉ letters} else letters, behind)

/-! ## Classes -/

theorem splitAtFirst_cons (cuts : Char → Bool) (c : Char) (rest : Text) :
    Text.splitAtFirst cuts (c :: rest) =
      if cuts c then some ([], rest)
      else (Text.splitAtFirst cuts rest).map fun parts => (c :: parts.1, parts.2) := by
  unfold Text.splitAtFirst
  by_cases here : cuts c = true
  · simp [here]
  · cases behind : rest.dropWhile fun d => !cuts d with
    | nil => simp [here, behind]
    | cons d more => simp [here, behind]

/-- A range stands in front. -/
def StartsRange (rest : Text) : Prop := ∃ b more, rest = '-' :: b :: more ∧ b ≠ ']'

theorem classMembers_range (a b : Char) (rest : Text) :
    classMembers (a :: '-' :: b :: rest) = {c | a ≤ c ∧ c ≤ b} ∪ classMembers rest := rfl

theorem classMembers_single {a : Char} {rest : Text} (single : ∀ b more, rest ≠ '-' :: b :: more) :
    classMembers (a :: rest) = {a} ∪ classMembers rest := by
  rw [classMembers.eq_def]
  split
  · next same => exact absurd (List.cons.inj same).2 (single _ _)
  · next same =>
      obtain ⟨rfl, rfl⟩ := List.cons.inj same
      rfl
  · next same => cases same

theorem charAt_of_drop {p rest : Text} {i k : Nat} {c : Char} (here : p.drop i = rest)
    (found : rest[k]? = some c) : charAt p (i + k) = .ok c := by
  rw [charAt, Outcome.orPanic_eq_ok, ← List.getElem?_drop, here, found]

theorem charAt_of_cons {p rest : Text} {i : Nat} {c : Char} (here : p.drop i = c :: rest) :
    charAt p i = .ok c := charAt_of_drop here (k := 0) rfl

theorem rangeAt_of_drop {p rest : Text} {i : Nat} {c : Char} (here : p.drop i = c :: rest) :
    ∃ range, rangeAt p i = .ok range ∧ (range = true ↔ StartsRange rest) := by
  have length := congrArg List.length here
  rw [List.length_drop, List.length_cons] at length
  unfold rangeAt StartsRange
  by_cases long : i + 2 < p.length
  · rw [if_pos long]
    obtain _ | ⟨middle, _ | ⟨last, more⟩⟩ := rest
    · rw [List.length_nil] at length
      omega
    · rw [List.length_cons, List.length_nil] at length
      omega
    · rw [charAt_of_drop here (k := 1) rfl, Outcome.ok_bind]
      by_cases dash : middle = '-'
      · subst dash
        rw [if_pos rfl, charAt_of_drop here (k := 2) rfl, Outcome.ok_bind]
        refine ⟨_, rfl, ?_⟩
        rw [decide_eq_true_eq]
        constructor
        · intro other
          exact ⟨last, more, rfl, other⟩
        · rintro ⟨b, more', same, other⟩
          obtain ⟨rfl, rfl⟩ := List.cons.inj (List.cons.inj same).2
          exact other
      · rw [if_neg dash]
        refine ⟨false, rfl, iff_of_false Bool.false_ne_true ?_⟩
        rintro ⟨b, more', same, -⟩
        exact dash (List.cons.inj same).1
  · rw [if_neg long]
    refine ⟨false, rfl, iff_of_false Bool.false_ne_true ?_⟩
    rintro ⟨b, more, rfl, -⟩
    rw [List.length_cons, List.length_cons] at length
    omega

/-- Up to a closing bracket. -/
abbrev untilBracket (rest : Text) : Option (Text × Text) := Text.splitAtFirst (fun c => c = ']') rest

theorem untilBracket_bracket (rest : Text) : untilBracket (']' :: rest) = some ([], rest) := rfl

theorem untilBracket_cons {c : Char} (rest : Text) (member : c ≠ ']') :
    untilBracket (c :: rest) = (untilBracket rest).map fun parts => (c :: parts.1, parts.2) := by
  rw [untilBracket, splitAtFirst_cons, if_neg (by rw [decide_eq_true_eq]; exact member)]

theorem mem_untilBracket {rest members behind : Text} (split : untilBracket rest = some (members, behind)) :
    rest = members ++ ']' :: behind := by
  induction rest generalizing members with
  | nil => cases split
  | cons c rest ih =>
      by_cases bracket : c = ']'
      · subst bracket
        obtain ⟨rfl, rfl⟩ := Prod.mk.inj (Option.some.inj split)
        rfl
      · rw [untilBracket_cons rest bracket] at split
        obtain ⟨⟨front, tail⟩, later, same⟩ := Option.map_eq_some_iff.mp split
        obtain ⟨rfl, rfl⟩ := Prod.mk.inj same
        rw [ih later]
        rfl

section

variable {p : Text} {ch : Char} {negate : Bool} {start : Nat}

/-- From position `i` on, the loop reads these members and then the closing bracket. -/
def ClassRead (p : Text) (ch : Char) (negate : Bool) (start i : Nat) (found : Bool)
    (split : Option (Text × Text)) : Prop :=
  (split = none → classLoop p ch negate start i found = .ok none) ∧
  ∀ members behind, split = some (members, behind) →
    ∃ held, classLoop p ch negate start i found =
        .ok (some (held != negate, i + members.length + 1)) ∧
      (held = true ↔ found = true ∨ ch ∈ classMembers members)

theorem lt_length_of_drop {rest : Text} {i : Nat} {a : Char} (here : p.drop i = a :: rest) :
    i < p.length := by
  have length := congrArg List.length here
  rw [List.length_drop, List.length_cons] at length
  omega

/-- One step of the loop over a range. -/
theorem ClassRead.range {a b : Char} {rest : Text} {found : Bool} {i : Nat}
    {split : Option (Text × Text)} (here : p.drop i = a :: '-' :: b :: rest)
    (member : ¬ (a = ']' ∧ start < i)) (last : b ≠ ']')
    (next : ClassRead p ch negate start (i + 3) (found || a ≤ ch && ch ≤ b) split) :
    ClassRead p ch negate start i found
      (split.map fun parts => (a :: '-' :: b :: parts.1, parts.2)) := by
  obtain ⟨range, run, holds⟩ := rangeAt_of_drop here
  obtain rfl : range = true := holds.mpr ⟨b, rest, rfl, last⟩
  have step : classLoop p ch negate start i found =
      classLoop p ch negate start (i + 3) (found || a ≤ ch && ch ≤ b) := by
    rw [classLoop, if_pos (lt_length_of_drop here), charAt_of_cons here, Outcome.ok_bind,
      if_neg member, run, Outcome.ok_bind, if_pos rfl, charAt_of_drop here (k := 2) rfl,
      Outcome.ok_bind]
  constructor
  · intro none
    rw [step]
    exact next.1 (Option.map_eq_none_iff.mp none)
  · intro members behind some
    obtain ⟨⟨others, tail⟩, later, same⟩ := Option.map_eq_some_iff.mp some
    dsimp only at same
    obtain ⟨rfl, rfl⟩ := Prod.mk.inj same
    obtain ⟨held, run, holds⟩ := next.2 others tail later
    refine ⟨held, ?_, ?_⟩
    · rw [step, run, List.length_cons, List.length_cons, List.length_cons]
      congr 3
      omega
    · rw [holds, classMembers_range, Bool.or_eq_true, Bool.and_eq_true, decide_eq_true_eq,
        decide_eq_true_eq, or_assoc]
      rfl

/-- One step of the loop over another member. -/
theorem ClassRead.single {a : Char} {rest : Text} {found : Bool} {i : Nat}
    (here : p.drop i = a :: rest) (member : ¬ (a = ']' ∧ start < i)) (single : ¬ StartsRange rest)
    (next : ClassRead p ch negate start (i + 1) (found || a = ch) (untilBracket rest)) :
    ClassRead p ch negate start i found
      ((untilBracket rest).map fun parts => (a :: parts.1, parts.2)) := by
  obtain ⟨range, run, holds⟩ := rangeAt_of_drop here
  obtain rfl : range = false := Bool.eq_false_iff.mpr fun held => single (holds.mp held)
  have step : classLoop p ch negate start i found =
      classLoop p ch negate start (i + 1) (found || a = ch) := by
    rw [classLoop, if_pos (lt_length_of_drop here), charAt_of_cons here, Outcome.ok_bind,
      if_neg member, run, Outcome.ok_bind, if_neg Bool.false_ne_true]
  constructor
  · intro none
    rw [step]
    exact next.1 (Option.map_eq_none_iff.mp none)
  · intro members behind some
    obtain ⟨⟨others, tail⟩, later, same⟩ := Option.map_eq_some_iff.mp some
    dsimp only at same
    obtain ⟨rfl, rfl⟩ := Prod.mk.inj same
    obtain ⟨held, run, holds⟩ := next.2 others tail later
    refine ⟨held, ?_, ?_⟩
    · rw [step, run, List.length_cons]
      congr 3
      omega
    · -- a range within the members would stand in front of the rest
      have alone : ∀ b more, others ≠ '-' :: b :: more := by
        rintro b more rfl
        have whole := mem_untilBracket later
        refine single ⟨b, more ++ ']' :: tail, whole, ?_⟩
        rintro rfl
        rw [whole, List.cons_append, untilBracket_cons _ (by decide), List.cons_append,
          untilBracket_bracket] at later
        cases later
      rw [holds, classMembers_single alone, Bool.or_eq_true, decide_eq_true_eq, or_assoc,
        eq_comm (a := a)]
      rfl

/-- Behind the first member the loop ends at the first closing bracket. -/
theorem classRead_behind {rest : Text} (found : Bool) {i : Nat} (here : p.drop i = rest)
    (behindFirst : start < i) : ClassRead p ch negate start i found (untilBracket rest) := by
  induction length : rest.length using Nat.strong_induction_on generalizing rest i found with
  | _ n ih =>
      cases rest with
      | nil =>
          refine ⟨fun _ => ?_, nofun⟩
          rw [classLoop, if_neg (by rw [List.drop_eq_nil_iff] at here; omega)]
          rfl
      | cons a rest =>
          rw [List.length_cons] at length
          by_cases bracket : a = ']'
          · subst bracket
            refine ⟨nofun, fun members behind same => ⟨found, ?_, ?_⟩⟩
            · obtain ⟨rfl, rfl⟩ := Prod.mk.inj (Option.some.inj same)
              rw [classLoop, if_pos (lt_length_of_drop here), charAt_of_cons here, Outcome.ok_bind,
                if_pos ⟨rfl, behindFirst⟩]
              rfl
            · obtain ⟨rfl, rfl⟩ := Prod.mk.inj (Option.some.inj same)
              exact ⟨.inl, fun held => held.resolve_right id⟩
          · have member : ¬ (a = ']' ∧ start < i) := fun held => bracket held.1
            rw [untilBracket_cons rest bracket]
            by_cases range : StartsRange rest
            · obtain ⟨b, more, rfl, last⟩ := range
              have beyond : p.drop (i + 3) = more := by
                rw [← List.drop_drop, here]
                rfl
              rw [untilBracket_cons _ (by decide), untilBracket_cons _ last, Option.map_map,
                Option.map_map]
              rw [List.length_cons, List.length_cons] at length
              exact .range here member last (ih more.length (by omega) _ beyond (by omega) rfl)
            · have next : p.drop (i + 1) = rest := by
                rw [← List.drop_drop, here]
                rfl
              exact .single here member range (ih rest.length (by omega) _ next (by omega) rfl)

/-- The first member is taken whatever it is. -/
theorem classRead_first {a : Char} {rest : Text} (here : p.drop start = a :: rest) :
    ClassRead p ch negate start start false
      ((untilBracket rest).map fun parts => (a :: parts.1, parts.2)) := by
  have member : ¬ (a = ']' ∧ start < start) := fun held => Nat.lt_irrefl _ held.2
  by_cases range : StartsRange rest
  · obtain ⟨b, more, rfl, last⟩ := range
    have beyond : p.drop (start + 3) = more := by
      rw [← List.drop_drop, here]
      rfl
    rw [untilBracket_cons _ (by decide), untilBracket_cons _ last, Option.map_map, Option.map_map]
    exact .range here member last (classRead_behind _ beyond (by omega))
  · have next : p.drop (start + 1) = rest := by
      rw [← List.drop_drop, here]
      rfl
    exact .single here member range (classRead_behind _ next (by omega))

end

/-- What is behind a class is a part of the pattern. -/
theorem drop_of_untilBracket {p rest members behind : Text} {start : Nat} {a : Char}
    (here : p.drop start = a :: rest) (split : untilBracket rest = some (members, behind)) :
    start + (a :: members).length + 1 ≤ p.length ∧
      p.drop (start + (a :: members).length + 1) = behind := by
  have whole : p.drop start = (a :: members ++ [']']) ++ behind := by
    rw [here, mem_untilBracket split, List.cons_append, List.cons_append, List.append_assoc]
    rfl
  have length := congrArg List.length whole
  rw [List.length_drop, List.length_append, List.length_append, List.length_singleton] at length
  constructor
  · omega
  · have size : (a :: members).length + 1 = (a :: members ++ [']']).length := by
      rw [List.length_append, List.length_singleton]
    rw [Nat.add_assoc, ← List.drop_drop, whole, size, List.drop_left]

/-- The position of the first member. -/
def classStart (p : Text) : Nat := if p.head? == some '^' then 1 else 0

theorem readClass_eq (p : Text) :
    readClass p =
      (p.drop (classStart p)).head?.bind fun a =>
        ((untilBracket (p.drop (classStart p)).tail).map fun parts => (a :: parts.1, parts.2)).map
          fun parts => (if p.head? = some '^' then {c | c ∉ classMembers parts.1}
            else classMembers parts.1, parts.2) := by
  have rest : (if p.head? = some '^' then p.tail else p) = p.drop (classStart p) := by
    unfold classStart
    by_cases negated : p.head? = some '^'
    · rw [if_pos negated, if_pos (beq_iff_eq.mpr negated), List.drop_one]
    · rw [if_neg negated, if_neg (by rw [beq_iff_eq]; exact negated), List.drop_zero]
  unfold readClass
  simp only [rest]
  cases p.drop (classStart p) with
  | nil => rfl
  | cons a rest =>
      simp only [List.head?_cons, Option.bind_some, List.tail_cons, untilBracket]
      cases Text.splitAtFirst (fun c => c = ']') rest with
      | none => rfl
      | some parts => rfl

/-- A class is matched as it is read. -/
theorem classMatch_of_readClass (p : Text) (ch : Char) :
    (readClass p = none → classMatch p ch = .ok none) ∧
    ∀ letters behind, readClass p = some (letters, behind) →
      ∃ held off, classMatch p ch = .ok (some (held, off)) ∧
        (held = true ↔ ch ∈ letters) ∧ off ≤ p.length ∧ p.drop off = behind := by
  have run : classMatch p ch =
      classLoop p ch (p.head? == some '^') (classStart p) (classStart p) false := rfl
  rw [readClass_eq, run]
  cases here : p.drop (classStart p) with
  | nil =>
      refine ⟨fun _ => ?_, nofun⟩
      rw [List.drop_eq_nil_iff] at here
      rw [classLoop, if_neg (by omega)]
      rfl
  | cons a rest =>
      obtain ⟨ends, goes⟩ := @classRead_first p ch (p.head? == some '^') _ a rest here
      rw [List.head?_cons, Option.bind_some, List.tail_cons]
      cases split : untilBracket rest with
      | none =>
          rw [split] at ends
          exact ⟨fun _ => ends rfl, nofun⟩
      | some parts =>
          obtain ⟨members, tail⟩ := parts
          rw [split] at goes
          obtain ⟨held, returned, holds⟩ := goes (a :: members) tail rfl
          refine ⟨nofun, fun letters behind same => ?_⟩
          obtain ⟨rfl, rfl⟩ := Prod.mk.inj (Option.some.inj same)
          refine ⟨_, _, returned, ?_, drop_of_untilBracket here split⟩
          simp only [Bool.false_eq_true, false_or] at holds
          by_cases negated : p.head? = some '^'
          · simp only [negated, if_true, beq_self_eq_true, bne_iff_ne, Set.mem_ofPred_eq, ← holds, ne_eq]
          · have plain : (p.head? == some '^') = false := beq_eq_false_iff_ne.mpr negated
            simp only [negated, if_false, plain, bne_iff_ne, ne_eq, Bool.not_eq_false, ← holds]

theorem readClass_length {p behind : Text} {letters : Set Char}
    (read : readClass p = some (letters, behind)) : behind.length ≤ p.length := by
  obtain ⟨_, off, -, -, -, rfl⟩ := (classMatch_of_readClass p 'a').2 letters behind read
  rw [List.length_drop]
  omega

/-! ## Patterns -/

/-- A GLOB pattern, from the left. A class that does not end stands for nothing. -/
def readGlob : Text → List (Wildcard Char)
  | [] => []
  | '*' :: p => .gap :: readGlob p
  | '?' :: p => .one Set.univ :: readGlob p
  | '[' :: p =>
      match read : readClass p with
      | some (letters, behind) =>
          have : behind.length ≤ p.length := readClass_length read
          .one letters :: readGlob behind
      | none => [.one ∅]
  | c :: p => .one {c} :: readGlob p
termination_by p => p.length

/-- The texts that a GLOB pattern describes. -/
def globLanguage (pattern : Text) : Language Char := Wildcard.matched (readGlob pattern)

/-- Behind an opening bracket the recursion decides the rest of a shorter text. -/
theorem globRec_class {p t : Text}
    (shorter : ∀ p' t', t'.length + p'.length < t.length + (p.length + 1) →
      ∃ held, globRec p' t' = .ok held ∧ (held = true ↔ t' ∈ Wildcard.matched (readGlob p'))) :
    ∃ held, globRec ('[' :: p) t = .ok held ∧
      (held = true ↔ t ∈ Wildcard.matched (readGlob ('[' :: p))) := by
  cases t with
  | nil =>
      refine ⟨false, by rw [globRec], iff_of_false Bool.false_ne_true ?_⟩
      rw [readGlob]
      split
      · exact Wildcard.nil_not_mem_one
      · exact Wildcard.not_mem_empty
  | cons d t =>
      rw [globRec, readGlob]
      split
      · next letters behind read =>
          obtain ⟨found, off, run, holds, inside, rest⟩ := (classMatch_of_readClass p d).2 _ _ read
          have slice : charsFrom ('[' :: p) (1 + off) = .ok behind := by
            rw [charsFrom, List.length_cons, if_pos (by omega), ← rest, Nat.add_comm 1 off]
            rfl
          have fewer := readClass_length read
          rw [List.length_cons] at shorter
          rw [run, Outcome.ok_bind, Wildcard.cons_mem_one]
          dsimp only
          cases found with
          | true =>
              obtain ⟨held, run, longer⟩ := shorter behind t (by omega)
              rw [if_pos rfl, slice, Outcome.ok_bind]
              refine ⟨held, run, ?_⟩
              rw [longer]
              exact ⟨fun member => ⟨holds.mp rfl, member⟩, And.right⟩
          | false =>
              exact ⟨false, rfl, iff_of_false Bool.false_ne_true fun member =>
                Bool.false_ne_true (holds.mpr member.1)⟩
      · next read =>
          rw [(classMatch_of_readClass p d).1 read, Outcome.ok_bind]
          exact ⟨false, rfl, iff_of_false Bool.false_ne_true Wildcard.not_mem_empty⟩

theorem globRec_exact (p t : Text) :
    ∃ held, globRec p t = .ok held ∧ (held = true ↔ t ∈ Wildcard.matched (readGlob p)) := by
  induction size : t.length + p.length using Nat.strong_induction_on generalizing p t with
  | _ n ih =>
      cases p with
      | nil =>
          refine ⟨decide (t = []), by rw [globRec], ?_⟩
          rw [decide_eq_true_eq, readGlob, Wildcard.mem_matched_nil]
      | cons c p =>
          rw [List.length_cons] at size
          by_cases star : c = '*'
          · subst star
            rw [readGlob]
            obtain ⟨rest, run, holds⟩ := ih _ (by omega) p t rfl
            cases t with
            | nil =>
                rw [globRec, run, Outcome.ok_bind]
                cases rest with
                | true => exact ⟨true, rfl, holds.trans Wildcard.nil_mem_gap.symm⟩
                | false => exact ⟨false, rfl, holds.trans Wildcard.nil_mem_gap.symm⟩
            | cons d t =>
                rw [globRec, run, Outcome.ok_bind, Wildcard.cons_mem_gap]
                cases rest with
                | true => exact ⟨true, rfl, iff_of_true rfl (.inl (holds.mp rfl))⟩
                | false =>
                    rw [List.length_cons] at size
                    obtain ⟨held, run, longer⟩ := ih _ (by rw [List.length_cons]; omega) ('*' :: p) t rfl
                    refine ⟨held, run, ?_⟩
                    rw [longer, readGlob, ← holds]
                    simp only [Bool.false_eq_true, false_or]
          · by_cases mark : c = '?'
            · subst mark
              rw [readGlob]
              cases t with
              | nil =>
                  exact ⟨false, by rw [globRec], iff_of_false Bool.false_ne_true
                    Wildcard.nil_not_mem_one⟩
              | cons d t =>
                  rw [List.length_cons] at size
                  obtain ⟨held, run, holds⟩ := ih _ (by omega) p t rfl
                  refine ⟨held, by rw [globRec, run], ?_⟩
                  rw [holds, Wildcard.cons_mem_one]
                  exact ⟨fun member => ⟨Set.mem_univ d, member⟩, And.right⟩
            · by_cases bracket : c = '['
              · subst bracket
                exact globRec_class fun p' t' shorter => ih _ (by omega) p' t' rfl
              · have plain : readGlob (c :: p) = .one {c} :: readGlob p := by
                  rw [readGlob.eq_5 c p star mark bracket]
                rw [plain]
                cases t with
                | nil =>
                    refine ⟨false, ?_, iff_of_false Bool.false_ne_true Wildcard.nil_not_mem_one⟩
                    rw [globRec.eq_8 c p star mark bracket]
                | cons d t =>
                    rw [List.length_cons] at size
                    obtain ⟨held, run, holds⟩ := ih _ (by omega) p t rfl
                    rw [globRec.eq_9 c p d t star mark bracket, Wildcard.cons_mem_one]
                    by_cases same : c = d
                    · rw [if_pos same]
                      refine ⟨held, run, ?_⟩
                      rw [holds]
                      exact ⟨fun member => ⟨same.symm, member⟩, And.right⟩
                    · rw [if_neg same]
                      exact ⟨false, rfl, iff_of_false Bool.false_ne_true fun member => same member.1.symm⟩

/-- GLOB returns, and decides the language of its pattern. -/
theorem globMatch_exact (pattern text : Text) :
    ∃ held, globMatch pattern text = .ok held ∧ (held = true ↔ text ∈ globLanguage pattern) :=
  globRec_exact pattern text

end Squrust.Sql
