import Squrust.Sql.DateTimeDigits
import Squrust.Foundation.Calendars

/-!
# What a text of date and time says

A date is written as its year, month and day, a time of day as its hour, minute and second,
and at most one date and one time of day are written as the same text
(`realDateText_iff`, `realTimeText_iff`). A text of both is cut at its blank
(`realStampText_iff`). So a text says whether what was written is a day of the calendar and a
time of a day.
-/

set_option autoImplicit false

namespace Squrust.Sql

open Squrust.Foundation

/-! ## Texts -/

/-- The text of a date. -/
def dateShape (y m d : Int) : Text :=
  padZeros 4 y ++ ['-'] ++ padZeros 2 m ++ ['-'] ++ padZeros 2 d

/-- The text of a time of day, with what is behind its seconds. -/
def timeShape (h min sec : Int) (fraction : Text) : Text :=
  padZeros 2 h ++ [':'] ++ padZeros 2 min ++ [':'] ++ padZeros 2 sec ++ fraction

/-- Milliseconds, when they are shown. -/
def FractionText (fraction : Text) : Prop :=
  fraction = [] ∨ ∃ ms : Int, (0 ≤ ms ∧ ms ≤ 999) ∧ fraction = '.' :: padZeros 3 ms

/-- The text of a day of the calendar. -/
def RealDateText (text : Text) : Prop := ∃ y m d, IsDate y m d ∧ text = dateShape y m d

/-- The text of a time of a day. -/
def RealTimeText (text : Text) : Prop :=
  ∃ h min sec fraction, (0 ≤ h ∧ h ≤ 23) ∧ (0 ≤ min ∧ min ≤ 59) ∧ (0 ≤ sec ∧ sec ≤ 59) ∧
    FractionText fraction ∧ text = timeShape h min sec fraction

/-- The text of a time of a day of the calendar. -/
def RealStampText (text : Text) : Prop :=
  ∃ date time, RealDateText date ∧ RealTimeText time ∧ text = date ++ [' '] ++ time

/-! ## Numbers -/

theorem ofDigitChars_padZeros (width n : Nat) : Nat.ofDigitChars 10 (padZeros width (n : Int)) 0 = n := by
  rw [padZeros_natCast, Nat.ofDigitChars_append, Nat.ofDigitChars_replicate_zero, Nat.mul_zero,
    Nat.ofDigitChars_ten_toDigits]

/-- What a number is written with. -/
theorem mem_padZeros {width : Nat} {n : Int} {c : Char} (held : c ∈ padZeros width n) :
    c = '-' ∨ c.isDigit = true := by
  unfold padZeros at held
  simp only [List.mem_append, List.mem_replicate] at held
  rcases held with (sign | ⟨_, rfl⟩) | digit
  · split at sign
    · exact .inl (List.mem_singleton.mp sign)
    · cases sign
  · exact .inr (by decide)
  · exact .inr (Nat.isDigit_of_mem_toDigits (by decide) (by decide) digit)

theorem padZeros_ne_negative {width n : Nat} {digits : Text} : padZeros width (n : Int) ≠ '-' :: digits := by
  intro same
  rw [padZeros_natCast] at same
  have sign : '-' ∈ List.replicate (width - (Nat.toDigits 10 n).length) '0' ++ Nat.toDigits 10 n := by
    rw [same]
    exact List.mem_cons_self
  rcases List.mem_append.mp sign with zero | digit
  · exact absurd (List.eq_of_mem_replicate zero) (by decide)
  · exact absurd (Nat.isDigit_of_mem_toDigits (by decide) (by decide) digit) (by decide)

/-- A negative number is written with one zero less in front. -/
theorem padZeros_neg {width n : Nat} (positive : 0 < n) :
    padZeros width (-n : Int) = '-' :: padZeros (width - 1) (n : Int) := by
  rw [padZeros_natCast, padZeros, if_pos (by omega), Int.natAbs_neg, Int.natAbs_natCast]
  rfl

/-- Different numbers are written differently. -/
theorem padZeros_inj {width : Nat} {a b : Int} (same : padZeros width a = padZeros width b) : a = b := by
  have read {width n n' : Nat} (same : padZeros width (n : Int) = padZeros width (n' : Int)) : n = n' := by
    rw [← ofDigitChars_padZeros width n, same, ofDigitChars_padZeros]
  by_cases negative : a < 0
  · obtain ⟨n, rfl⟩ : ∃ n : Nat, a = -n := ⟨a.natAbs, by omega⟩
    rw [padZeros_neg (by omega)] at same
    by_cases negative' : b < 0
    · obtain ⟨n', rfl⟩ : ∃ n : Nat, b = -n := ⟨b.natAbs, by omega⟩
      rw [padZeros_neg (by omega)] at same
      rw [read (List.tail_eq_of_cons_eq same)]
    · lift b to ℕ using Int.not_lt.mp negative'
      exact absurd same.symm padZeros_ne_negative
  · lift a to ℕ using Int.not_lt.mp negative
    by_cases negative' : b < 0
    · obtain ⟨n', rfl⟩ : ∃ n : Nat, b = -n := ⟨b.natAbs, by omega⟩
      rw [padZeros_neg (by omega)] at same
      exact absurd same padZeros_ne_negative
    · lift b to ℕ using Int.not_lt.mp negative'
      rw [read same]

theorem length_padZeros_two {n : Int} (low : 0 ≤ n) (high : n ≤ 99) : (padZeros 2 n).length = 2 := by
  lift n to ℕ using low
  rw [padZeros_two (by omega)]
  rfl

/-! ## Dates -/

/-- A date is written as one of the calendar exactly if it is one. -/
theorem realDateText_iff {y m d : Int} (months : 0 ≤ m ∧ m ≤ 99) (days : 0 ≤ d ∧ d ≤ 99) :
    RealDateText (dateShape y m d) ↔ IsDate y m d := by
  refine ⟨?_, fun date => ⟨y, m, d, date, rfl⟩⟩
  rintro ⟨y', m', d', date, same⟩
  have day_le := date.day_le
  have length {n : Int} (bounds : 0 ≤ n ∧ n ≤ 99) := length_padZeros_two bounds.1 bounds.2
  have months' : 0 ≤ m' ∧ m' ≤ 99 := by have := date.month; omega
  have days' : 0 ≤ d' ∧ d' ≤ 99 := by have := date.day; omega
  obtain ⟨front, day⟩ := List.append_inj' same ((length days).trans (length days').symm)
  obtain ⟨front, _⟩ := List.append_inj' front rfl
  obtain ⟨front, month⟩ := List.append_inj' front ((length months).trans (length months').symm)
  obtain ⟨year, _⟩ := List.append_inj' front rfl
  rwa [padZeros_inj year, padZeros_inj month, padZeros_inj day]

/-! ## Times of day -/

/-- A time of day is written as one of a day exactly if it is one. -/
theorem realTimeText_iff {h min sec : Int} {fraction : Text} (hours : 0 ≤ h ∧ h ≤ 99)
    (minutes : 0 ≤ min ∧ min ≤ 99) (seconds : 0 ≤ sec ∧ sec ≤ 99) (shown : FractionText fraction) :
    RealTimeText (timeShape h min sec fraction) ↔ h ≤ 23 ∧ min ≤ 59 ∧ sec ≤ 59 := by
  refine ⟨?_, fun real => ⟨h, min, sec, fraction, ⟨hours.1, real.1⟩, ⟨minutes.1, real.2.1⟩,
    ⟨seconds.1, real.2.2⟩, shown, rfl⟩⟩
  rintro ⟨h', min', sec', fraction', hours', minutes', seconds', _, same⟩
  have length {n : Int} (bounds : 0 ≤ n ∧ n ≤ 99) := length_padZeros_two bounds.1 bounds.2
  simp only [timeShape, List.append_assoc] at same
  obtain ⟨hour, rest⟩ := List.append_inj same ((length hours).trans (length (by omega)).symm)
  obtain ⟨minute, rest⟩ := List.append_inj (List.append_cancel_left rest)
    ((length minutes).trans (length (by omega)).symm)
  obtain ⟨second, _⟩ := List.append_inj (List.append_cancel_left rest)
    ((length seconds).trans (length (by omega)).symm)
  rw [padZeros_inj hour, padZeros_inj minute, padZeros_inj second]
  exact ⟨hours'.2, minutes'.2, seconds'.2⟩

/-! ## Both -/

/-- There is no blank in a date. -/
theorem blank_notMem_dateShape (y m d : Int) : ' ' ∉ dateShape y m d := by
  have number (width : Nat) (n : Int) : ' ' ∉ padZeros width n := fun held =>
    (mem_padZeros held).elim (by decide) (by decide)
  simp [dateShape, number]

/-- What is in front of the first blank. -/
theorem takeWhile_dateShape (y m d : Int) (time : Text) :
    (dateShape y m d ++ ([' '] ++ time)).takeWhile (· != ' ') = dateShape y m d := by
  have none : ∀ c ∈ dateShape y m d, (c != ' ') = true := fun c held =>
    bne_iff_ne.mpr fun blank => blank_notMem_dateShape y m d (blank ▸ held)
  rw [List.takeWhile_append_of_pos none, List.singleton_append, List.takeWhile_cons_of_neg (by decide),
    List.append_nil]

/-- A date and a time of day are written as one of a day of the calendar exactly if they are. -/
theorem realStampText_iff {y m d : Int} {time : Text} :
    RealStampText (dateShape y m d ++ [' '] ++ time) ↔
      RealDateText (dateShape y m d) ∧ RealTimeText time := by
  refine ⟨?_, fun real => ⟨dateShape y m d, time, real.1, real.2, rfl⟩⟩
  rintro ⟨_, time', ⟨y', m', d', date, rfl⟩, real, same⟩
  rw [List.append_assoc, List.append_assoc] at same
  have front : dateShape y m d = dateShape y' m' d' := by
    rw [← takeWhile_dateShape y m d time, ← takeWhile_dateShape y' m' d' time']
    exact congrArg _ same
  obtain rfl : time = time' := List.tail_eq_of_cons_eq (List.append_cancel_left (front ▸ same))
  exact ⟨⟨y', m', d', date, front⟩, real⟩

end Squrust.Sql
