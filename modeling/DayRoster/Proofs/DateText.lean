import DayRoster.Spelling
import Mathlib.Algebra.Group.Nat.Defs

/-!
The canonical text of a date and the date parser. A date of the years 0 to 9999 is read back from
its text. The text of any other date begins with a sign, and no text that begins so is a date. The
days that a spelling can stand for begin with 1 January of year 0.
-/

set_option autoImplicit false

namespace DayRoster

namespace Decimal

theorem length_toDigits_of_lt {n k : Nat} (h : n < 10 ^ (k + 1)) :
    (Nat.toDigits 10 n).length ≤ k + 1 :=
  (Nat.length_toDigits_le_iff (by decide) (Nat.succ_pos k)).mpr h

end Decimal

namespace Reader

theorem run_number_succ_eq_none {text : List Char}
    (h : ∀ c ∈ text.head?, c.isDigit = false) (width : Nat) :
    (number (width + 1)).run text = none := by
  cases text with
  | nil => rfl
  | cons c rest =>
    have hc : c.isDigit = false := h c rfl
    simp [number, digits, run_satisfying_cons, hc]

theorem run_isoDate_of_year_eq_none {text : List Char} (hyear : year.run text = none) :
    isoDate.run text = none := by
  simp only [isoDate, isoDay, calendarDay, weekDay, ordinalDay, wholeMonth, wholeYear, run_orElse,
    StateT.run_bind, StateT.run_map, hyear]
  rfl

private theorem run_outdatedDate_eq_none {text : List Char}
    (h : ∀ c ∈ text.head?, c.isDigit = false) : outdatedDate.run text = none := by
  have hyear : year.run text = none := run_number_succ_eq_none h 3
  have hshort : shortNumber.run text = none := by
    rw [shortNumber, run_orElse, run_number_succ_eq_none h 1, run_number_succ_eq_none h 0]
    rfl
  simp only [outdatedDate, slashedDate, monthFirstDate, looseDate, compactMonth, run_orElse,
    StateT.run_bind, hyear, hshort]
  rfl

theorem run_char_cons (c : Char) (rest : List Char) :
    (char c).run (c :: rest) = some (c, rest) := by
  simp [char, run_satisfying_cons]

private theorem run_calendarDay_dashed {y m d : Nat} (hy : y < 10000) (hm : m < 100) (hd : d < 100)
    (rest : List Char) :
    calendarDay.run (Decimal.padded 4 y ++ '-' :: (Decimal.padded 2 m ++
      '-' :: (Decimal.padded 2 d ++ rest))) = some (.calendar y m d, rest) := by
  have hyear := run_number_padded (Decimal.length_toDigits_of_lt (k := 3) hy)
  have hmonth := run_number_padded (Decimal.length_toDigits_of_lt (k := 1) hm)
  have hday := run_number_padded (Decimal.length_toDigits_of_lt (k := 1) hd)
  simp only [calendarDay, run_orElse, year, pair, StateT.run_bind, hyear, hmonth, hday,
    run_char_cons, Option.bind_eq_bind, Option.bind_some]
  rfl

private theorem run_isoDate_dashed {y m d : Nat} (hy : y < 10000) (hm : m < 100) (hd : d < 100) :
    isoDate.run (Decimal.padded 4 y ++ '-' :: (Decimal.padded 2 m ++
      '-' :: Decimal.padded 2 d)) = some (.iso (.calendar y m d) none, []) := by
  have hday := run_calendarDay_dashed hy hm hd []
  have htime : (optional clockTime).run [] = some (none, []) := rfl
  have hend : atEnd.run [] = some ((), []) := rfl
  rw [List.append_nil] at hday
  simp only [isoDate, isoDay, run_orElse, StateT.run_bind, hday, htime, hend, Option.some_or,
    Option.bind_eq_bind, Option.bind_some]
  rfl

end Reader

namespace Spelling

theorem read?_eq_none {text : String} (h : ∀ c ∈ text.toList.head?, c.isDigit = false) :
    read? text = none := by
  have hyear : Reader.year.run text.toList = none := Reader.run_number_succ_eq_none h 3
  rw [read?, Reader.run_orElse, Reader.run_isoDate_of_year_eq_none hyear,
    Reader.run_outdatedDate_eq_none h]
  rfl

end Spelling

namespace Date

theorem year_nonneg_iff (d : Date) : 0 ≤ d.year ↔ 0 ≤ d.dayNumber := by
  have hstart : Year.start 0 = 0 := by decide
  rw [← Int.not_lt, year_lt_iff, hstart, Int.not_lt]

private theorem firstMonday_nonneg (year : Nat) : 0 ≤ firstMonday year := by
  cases year with
  | zero => decide
  | succ y =>
    have hmono : Year.start 1 ≤ Year.start ((y + 1 : Nat) : Int) := Year.start_mono (by omega)
    have hone : Year.start 1 = 366 := by decide
    rw [firstMonday]
    omega

private theorem year_nonneg_of_ofIsoWeek? {year week : Nat} {weekday : Weekday} {d : Date}
    (h : ofIsoWeek? year week weekday = some d) : 0 ≤ d.year := by
  rw [ofIsoWeek?] at h
  split at h
  · next hweek =>
    have hmonday := firstMonday_nonneg year
    rw [ofDayNumber?_eq_some_iff] at h
    rw [year_nonneg_iff]
    omega
  · simp at h

private theorem year_nonneg_of_ofOrdinal? {year day : Nat} {d : Date}
    (h : ofOrdinal? year day = some d) : 0 ≤ d.year := by
  rw [ofOrdinal?] at h
  split at h
  · next hday =>
    have hmono : Year.start 0 ≤ Year.start year := Year.start_mono (Int.natCast_nonneg year)
    have hzero : Year.start 0 = 0 := by decide
    rw [ofDayNumber?_eq_some_iff] at h
    rw [year_nonneg_iff]
    omega
  · simp at h

private theorem year_nonneg_of_ofYmd? {year month day : Nat} {d : Date}
    (h : ofYmd? year month day = some d) : 0 ≤ d.year := by
  have := (ofYmd?_eq_some_iff.mp h).1
  omega

private theorem year_nonneg_of_addDays? {d later : Date} {count : Nat} (hd : 0 ≤ d.year)
    (h : d.addDays? count = some later) : 0 ≤ later.year := by
  rw [addDays?, ofDayNumber?_eq_some_iff] at h
  rw [year_nonneg_iff] at hd ⊢
  omega

end Date

theorem DayName.year_nonneg_of_date? {name : DayName} {d : Date} (h : name.date? = some d) :
    0 ≤ d.year := by
  cases name with
  | calendar y m k => exact Date.year_nonneg_of_ofYmd? h
  | week y w weekday => exact Date.year_nonneg_of_ofIsoWeek? h
  | ordinal y n => exact Date.year_nonneg_of_ofOrdinal? h
  | month y m => exact Date.year_nonneg_of_ofYmd? h
  | year y =>
    change Date.ofYmd? (y : Int) 1 1 = some d at h
    exact Date.year_nonneg_of_ofYmd? h

theorem Spelling.year_nonneg_of_date? {spelling : Spelling} {d : Date}
    (h : spelling.date? = some d) : 0 ≤ d.year := by
  cases spelling with
  | outdated y m k => exact Date.year_nonneg_of_ofYmd? h
  | iso name time =>
    cases time with
    | none => exact DayName.year_nonneg_of_date? h
    | some time =>
      obtain ⟨offset, -, start, hstart, hlater⟩ := date?_with_time_eq_some_iff.mp h
      exact Date.year_nonneg_of_addDays? (DayName.year_nonneg_of_date? hstart) hlater

namespace Date

theorem read?_text (d : Date) (hlo : 0 ≤ d.year) (hhi : d.year ≤ 9999) :
    Spelling.read? d.text = some (.iso (.calendar d.year.natAbs d.month d.day) none) := by
  have hm := d.month_le
  have hd := d.day_le
  have hlength := Year.monthLength_le (Year.isLeap d.year) d.month
  have hrun := Reader.run_isoDate_dashed (y := d.year.natAbs) (m := d.month) (d := d.day)
    (by omega) (by omega) (by omega)
  rw [Spelling.read?, text, String.toList_ofList, yearDigits, if_pos ⟨hlo, hhi⟩, Reader.run_orElse,
    List.append_assoc, List.cons_append, hrun]
  rfl

theorem parse_eq_ok_iff {text : String} {d : Date} :
    Date.parse text = .ok d ↔
      ∃ spelling, Spelling.read? text = some spelling ∧ spelling.date? = some d := by
  unfold Date.parse
  cases hread : Spelling.read? text with
  | none => simp
  | some spelling => cases hdate : spelling.date? <;> simp [hdate]

theorem parse_eq_unreadable_iff {text : String} :
    Date.parse text = .error .unreadable ↔ Spelling.read? text = none := by
  unfold Date.parse
  cases hread : Spelling.read? text with
  | none => simp
  | some spelling => cases hdate : spelling.date? <;> simp [hdate]

theorem year_nonneg_of_parse {text : String} {d : Date} (h : Date.parse text = .ok d) :
    0 ≤ d.year := by
  obtain ⟨spelling, -, hdate⟩ := parse_eq_ok_iff.mp h
  exact Spelling.year_nonneg_of_date? hdate

/-- The years that are written without a sign. -/
def HasPlainYear (d : Date) : Prop := 0 ≤ d.year ∧ d.year ≤ 9999

instance (d : Date) : Decidable d.HasPlainYear :=
  inferInstanceAs (Decidable (0 ≤ d.year ∧ d.year ≤ 9999))

theorem exists_yearDigits_eq_cons {year : Int} (h : ¬ (0 ≤ year ∧ year ≤ 9999)) :
    ∃ sign, (sign = '+' ∨ sign = '-') ∧
      yearDigits year = sign :: Decimal.padded 4 year.natAbs := by
  rw [yearDigits, if_neg h]
  by_cases hneg : year < 0
  · rw [if_pos hneg]
    exact ⟨'-', .inr rfl, rfl⟩
  · rw [if_neg hneg]
    exact ⟨'+', .inl rfl, rfl⟩

theorem read?_signed_year {year : Int} (h : ¬ (0 ≤ year ∧ year ≤ 9999)) (rest : List Char) :
    Spelling.read? (String.ofList (yearDigits year ++ rest)) = none := by
  obtain ⟨sign, hsign, hdigits⟩ := exists_yearDigits_eq_cons h
  apply Spelling.read?_eq_none
  intro c hc
  rw [String.toList_ofList, hdigits] at hc
  obtain rfl := Option.some.inj hc
  rcases hsign with rfl | rfl <;> decide

theorem read?_text_eq_none {d : Date} (h : ¬ d.HasPlainYear) : Spelling.read? d.text = none := by
  rw [text, List.append_assoc]
  exact read?_signed_year h _

theorem hasPlainYear_of_parse_text {d e : Date} (h : Date.parse d.text = .ok e) :
    d.HasPlainYear := by
  obtain ⟨spelling, hread, -⟩ := parse_eq_ok_iff.mp h
  apply Decidable.byContradiction
  intro hplain
  rw [read?_text_eq_none hplain] at hread
  exact nomatch hread

/-- The text of a date is read back exactly if its year is written without a sign. -/
theorem parse_text_eq_ok_iff (d : Date) : Date.parse d.text = .ok d ↔ d.HasPlainYear := by
  constructor
  · exact hasPlainYear_of_parse_text
  · rintro ⟨hlo, hhi⟩
    refine parse_eq_ok_iff.mpr ⟨_, read?_text d hlo hhi, ?_⟩
    rw [Spelling.date?, DayName.date?, ofYmd?_eq_some_iff]
    exact ⟨(Int.natAbs_of_nonneg hlo).symm, rfl, rfl⟩

end Date

end DayRoster
