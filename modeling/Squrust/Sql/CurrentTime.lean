import Squrust.Sql.CivilTime
import Squrust.Sql.DateTimeRoundTrip
import Squrust.Sql.DateTimeShapes

/-!
# What a default stamps

A column whose default is `CURRENT_TIMESTAMP`, `CURRENT_DATE` or `CURRENT_TIME` is stamped with
the text of a day of the calendar and of a time of a day (`evalDefault_real`), and up to the
year 9999 the timestamp is read back as the seconds it was made of
(`unixepoch_currentTimestamp`).
-/

set_option autoImplicit false

namespace Squrust.Sql

open Squrust.Foundation

/-! ## Formats -/

theorem percent_notMem_padded (width : Nat) (n : Int) : '%' ∉ padded width n := by
  have same : padded width n = padZeros width n := rfl
  rw [same]
  exact fun held => (mem_padZeros held).elim (by decide) (by decide)

/-- What is in front of a pattern stays. -/
theorem replaceAll_front {c : Char} {behind new front : Text} (free : c ∉ front) (rest : Text) :
    replaceAll (c :: behind) new (front ++ rest).length (front ++ rest) =
      front ++ replaceAll (c :: behind) new rest.length rest := by
  induction front with
  | nil => rfl
  | cons d front ih =>
      obtain ⟨other, free⟩ := not_or.mp (mt List.mem_cons.mpr free)
      have apart : ¬ (c :: behind).isPrefixOf (d :: (front ++ rest)) = true := by
        rw [List.isPrefixOf_cons₂, Bool.and_eq_true, beq_iff_eq]
        exact fun held => other held.1
      rw [List.cons_append, List.length_cons, replaceAll, if_neg apart, ih free, List.cons_append]

/-- The next pattern, behind a character. -/
theorem replaceAll_next {letter sep : Char} {new front rest : Text} (free : '%' ∉ front)
    (other : sep ≠ '%') (last : replaceAll ['%', letter] new (rest.length + 1) rest = rest) :
    replaceAll ['%', letter] new (front ++ sep :: '%' :: letter :: rest).length
      (front ++ sep :: '%' :: letter :: rest) = front ++ [sep] ++ new ++ rest := by
  have here : (['%', letter].isPrefixOf ('%' :: letter :: rest)) = true := by
    simp [List.isPrefixOf]
  have apart : ¬ ['%', letter].isPrefixOf (sep :: '%' :: letter :: rest) = true := by
    rw [List.isPrefixOf_cons₂, Bool.and_eq_true, beq_iff_eq]
    exact fun held => other held.1.symm
  have replaced : replaceAll ['%', letter] new (rest.length + 2) ('%' :: letter :: rest) =
      new ++ rest := by
    rw [replaceAll, if_pos here]
    exact congrArg (new ++ ·) last
  rw [replaceAll_front free, List.length_cons, List.length_cons, List.length_cons, replaceAll,
    if_neg apart, replaced, List.append_assoc, List.append_assoc]
  rfl

/-- Where no pattern is, nothing is replaced. -/
theorem replaceAll_none {behind new text : Text} (free : '%' ∉ text) :
    replaceAll ('%' :: behind) new text.length text = text := by
  have front := @replaceAll_front '%' behind new text free []
  rw [List.append_nil] at front
  rw [front]
  exact List.append_nil text

namespace CivilTime

/-- The patterns of a timestamp are replaced one after the other. -/
theorem written_timestamp (t : CivilTime) : t.written "%Y-%m-%d %H:%M:%S".toList =
    dateShape t.year t.month t.day ++ [' '] ++ timeShape t.hour t.minute t.second [] := by
  obtain ⟨y, m, d, h, min, s⟩ := t
  have free := percent_notMem_padded
  obtain ⟨put, named⟩ : ∃ put : Text → Text → Text → Text,
    put = fun pattern new text => replaceAll pattern new text.length text := ⟨_, rfl⟩
  have year : put "%Y".toList (padded 4 y) "%Y-%m-%d %H:%M:%S".toList =
      padded 4 y ++ "-%m-%d %H:%M:%S".toList := by rw [named]; rfl
  have month : put "%m".toList (padded 2 m) (padded 4 y ++ "-%m-%d %H:%M:%S".toList) =
      padded 4 y ++ ['-'] ++ padded 2 m ++ "-%d %H:%M:%S".toList := by
    rw [named]
    exact replaceAll_next (free _ _) (by decide) rfl
  have day : put "%d".toList (padded 2 d) (padded 4 y ++ ['-'] ++ padded 2 m ++ "-%d %H:%M:%S".toList) =
      padded 4 y ++ ['-'] ++ padded 2 m ++ ['-'] ++ padded 2 d ++ " %H:%M:%S".toList := by
    rw [named]
    exact replaceAll_next (by simp [free]) (by decide) rfl
  have date : padded 4 y ++ ['-'] ++ padded 2 m ++ ['-'] ++ padded 2 d = dateShape y m d := rfl
  have freeDate : '%' ∉ dateShape y m d := by simp [← date, free]
  have hour : put "%H".toList (padded 2 h) (dateShape y m d ++ " %H:%M:%S".toList) =
      dateShape y m d ++ [' '] ++ padded 2 h ++ ":%M:%S".toList := by
    rw [named]
    exact replaceAll_next freeDate (by decide) rfl
  have minute : put "%M".toList (padded 2 min)
      (dateShape y m d ++ [' '] ++ padded 2 h ++ ":%M:%S".toList) =
      dateShape y m d ++ [' '] ++ padded 2 h ++ [':'] ++ padded 2 min ++ ":%S".toList := by
    rw [named]
    exact replaceAll_next (by simp [free, freeDate]) (by decide) rfl
  have second : put "%S".toList (padded 2 s)
      (dateShape y m d ++ [' '] ++ padded 2 h ++ [':'] ++ padded 2 min ++ ":%S".toList) =
      dateShape y m d ++ [' '] ++ padded 2 h ++ [':'] ++ padded 2 min ++ [':'] ++ padded 2 s ++ [] := by
    rw [named]
    exact replaceAll_next (by simp [free, freeDate]) (by decide) rfl
  have whole : written ⟨y, m, d, h, min, s⟩ "%Y-%m-%d %H:%M:%S".toList =
      put "%S".toList (padded 2 s) (put "%M".toList (padded 2 min) (put "%H".toList (padded 2 h)
        (put "%d".toList (padded 2 d) (put "%m".toList (padded 2 m)
          (put "%Y".toList (padded 4 y) "%Y-%m-%d %H:%M:%S".toList))))) := by rw [named]; rfl
  rw [whole, year, month, day, date, hour, minute, second]
  simp only [timeShape, List.append_assoc]
  rfl

/-- A date. -/
theorem written_date (t : CivilTime) :
    t.written "%Y-%m-%d".toList = dateShape t.year t.month t.day := by
  obtain ⟨y, m, d, h, min, s⟩ := t
  have free := percent_notMem_padded
  obtain ⟨put, named⟩ : ∃ put : Text → Text → Text → Text,
    put = fun pattern new text => replaceAll pattern new text.length text := ⟨_, rfl⟩
  have year : put "%Y".toList (padded 4 y) "%Y-%m-%d".toList = padded 4 y ++ "-%m-%d".toList := by
    rw [named]
    rfl
  have month : put "%m".toList (padded 2 m) (padded 4 y ++ "-%m-%d".toList) =
      padded 4 y ++ ['-'] ++ padded 2 m ++ "-%d".toList := by
    rw [named]
    exact replaceAll_next (free _ _) (by decide) rfl
  have day : put "%d".toList (padded 2 d) (padded 4 y ++ ['-'] ++ padded 2 m ++ "-%d".toList) =
      dateShape y m d := by
    rw [named]
    exact (replaceAll_next (by simp [free]) (by decide) rfl).trans (List.append_nil _)
  have date : padded 4 y ++ ['-'] ++ padded 2 m ++ ['-'] ++ padded 2 d = dateShape y m d := rfl
  have freeDate : '%' ∉ dateShape y m d := by simp [← date, free]
  have rest (letter : Char) (new : Text) : put ['%', letter] new (dateShape y m d) = dateShape y m d := by
    rw [named]
    exact replaceAll_none freeDate
  have whole : written ⟨y, m, d, h, min, s⟩ "%Y-%m-%d".toList =
      put ['%', 'S'] (padded 2 s) (put ['%', 'M'] (padded 2 min) (put ['%', 'H'] (padded 2 h)
        (put "%d".toList (padded 2 d) (put "%m".toList (padded 2 m)
          (put "%Y".toList (padded 4 y) "%Y-%m-%d".toList))))) := by rw [named]; rfl
  rw [whole, year, month, day, rest, rest, rest]

/-- A time of day. -/
theorem written_time (t : CivilTime) :
    t.written "%H:%M:%S".toList = timeShape t.hour t.minute t.second [] := by
  obtain ⟨y, m, d, h, min, s⟩ := t
  have free := percent_notMem_padded
  obtain ⟨put, named⟩ : ∃ put : Text → Text → Text → Text,
    put = fun pattern new text => replaceAll pattern new text.length text := ⟨_, rfl⟩
  have hour : put "%H".toList (padded 2 h) "%H:%M:%S".toList = padded 2 h ++ ":%M:%S".toList := by
    rw [named]
    rfl
  have minute : put "%M".toList (padded 2 min) (padded 2 h ++ ":%M:%S".toList) =
      padded 2 h ++ [':'] ++ padded 2 min ++ ":%S".toList := by
    rw [named]
    exact replaceAll_next (free _ _) (by decide) rfl
  have second : put "%S".toList (padded 2 s) (padded 2 h ++ [':'] ++ padded 2 min ++ ":%S".toList) =
      timeShape h min s [] := by
    rw [named]
    exact replaceAll_next (by simp [free]) (by decide) rfl
  have whole : written ⟨y, m, d, h, min, s⟩ "%H:%M:%S".toList =
      put "%S".toList (padded 2 s) (put "%M".toList (padded 2 min)
        (put "%H".toList (padded 2 h) "%H:%M:%S".toList)) := by rw [named]; rfl
  rw [whole, hour, minute, second]

/-- What is written of a civil time is real. -/
theorem IsReal.timeText {t : CivilTime} (real : t.IsReal) :
    RealTimeText (timeShape t.hour t.minute t.second []) :=
  ⟨t.hour, t.minute, t.second, [], real.hours, real.minutes, real.seconds, .inl rfl, rfl⟩

theorem IsReal.dateText {t : CivilTime} (real : t.IsReal) :
    RealDateText (dateShape t.year t.month t.day) :=
  ⟨t.year, t.month, t.day, real.date, rfl⟩

end CivilTime

/-! ## Defaults -/

/-- **What a `CURRENT_` default stamps** is a day of the calendar, a time of a day, or both. -/
theorem evalDefault_real (secs : Int) (col : Column) :
    (col.default = some .currentTimestamp →
      ∃ text, evalDefault secs col = .text text ∧ RealStampText text) ∧
    (col.default = some .currentDate →
      ∃ text, evalDefault secs col = .text text ∧ RealDateText text) ∧
    (col.default = some .currentTime →
      ∃ text, evalDefault secs col = .text text ∧ RealTimeText text) := by
  obtain ⟨t, texts, real, _⟩ := nowUtc_civil secs
  refine ⟨fun held => ?_, fun held => ?_, fun held => ?_⟩
  · refine ⟨_, by rw [evalDefault, held], ?_⟩
    rw [texts, t.written_timestamp]
    exact ⟨_, _, real.dateText, real.timeText, rfl⟩
  · refine ⟨_, by rw [evalDefault, held], ?_⟩
    rw [texts, t.written_date]
    exact real.dateText
  · refine ⟨_, by rw [evalDefault, held], ?_⟩
    rw [texts, t.written_time]
    exact real.timeText

/-! ## Reading a timestamp back -/

/-- The years of the seconds that a timestamp of four digits shows. -/
theorem CivilTime.IsReal.year_bounds {t : CivilTime} (real : t.IsReal) (first : 0 ≤ t.toSeconds)
    (last : t.toSeconds < 253402300800) : 0 ≤ t.year ∧ t.year ≤ 9999 := by
  obtain ⟨date, hours, minutes, seconds⟩ := real
  obtain ⟨start, before⟩ := date.dayNumber_eq
  have month := date.month
  have day := date.day.1
  have epoch : dayNumber 1970 1 1 = 2440588 := by decide
  unfold toSeconds at first last
  rw [epoch] at first last
  constructor
  · by_contra negative
    have early := @monthStart_le (12 * t.year + (t.month - 1) + 1) 0 (by omega)
    have zero : monthStart 0 = 1721060 := by decide
    omega
  · by_contra large
    have late := @monthStart_le 120000 (12 * t.year + (t.month - 1)) (by omega)
    have tenThousand : monthStart 120000 = 5373485 := by decide
    omega

/-- **A timestamp** is read back as the seconds of the clock, up to the year 9999. -/
theorem unixepoch_currentTimestamp {machine : Machine} {secs : Int} {col : Column}
    (timestamp : col.default = some .currentTimestamp) (first : 0 ≤ secs)
    (last : secs < 253402300800) :
    unixepoch machine [evalDefault secs col] = .ok (.integer (Int64.ofInt secs)) := by
  obtain ⟨t, texts, real, counted, _⟩ := nowUtc_civil secs
  obtain ⟨yearLow, yearHigh⟩ := real.year_bounds (counted ▸ first) (counted ▸ last)
  obtain ⟨date, hours, minutes, seconds⟩ := real
  have month := date.month
  have day := date.day.1
  have day_le := date.day_le
  have epoch : dayNumber 1970 1 1 = 2440588 := by decide
  have sum := counted
  unfold CivilTime.toSeconds at sum
  rw [epoch] at sum
  obtain ⟨y, year_eq⟩ := Int.eq_ofNat_of_zero_le yearLow
  obtain ⟨m, month_eq⟩ := Int.eq_ofNat_of_zero_le (by omega : 0 ≤ t.month)
  obtain ⟨d, day_eq⟩ := Int.eq_ofNat_of_zero_le (by omega : 0 ≤ t.day)
  obtain ⟨h, hour_eq⟩ := Int.eq_ofNat_of_zero_le hours.1
  obtain ⟨min, minute_eq⟩ := Int.eq_ofNat_of_zero_le minutes.1
  obtain ⟨s, second_eq⟩ := Int.eq_ofNat_of_zero_le seconds.1
  have text : evalDefault secs col = .text (stampText y m d h min s) := by
    have stamped : evalDefault secs col = .text (nowUtc secs "%Y-%m-%d %H:%M:%S".toList) := by
      rw [evalDefault, timestamp]
    rw [stamped, texts, t.written_timestamp, year_eq, month_eq, day_eq, hour_eq, minute_eq, second_eq,
      ← @stampText_eq y m d h min s (by omega) (by omega) (by omega) (by omega) (by omega) (by omega)]
    simp only [dateShape, timeShape, List.append_assoc, List.append_nil]
  rw [text]
  rw [year_eq, month_eq, day_eq] at sum
  refine @unixepoch_stamp machine y m d h min s secs (by omega) (by omega) (by omega) (by omega)
    (by omega) (by omega) ⟨?_, ?_⟩ ?_
  · unfold unixEpochMs
    omega
  · unfold unixEpochMs maxIjd
    omega
  · unfold unixEpochMs
    omega

end Squrust.Sql
