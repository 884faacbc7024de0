import DayRoster.Proofs.OrderedChoice
import DayRoster.Proofs.WeekYear

/-!
All spellings of a day. A day has a text in each form by its month, by its place in the year and by
its week, and each of them is read as that day. A text in one of these forms that no day has is
refused as impossible.
-/

set_option autoImplicit false

namespace DayRoster

open Decimal (Writes WritesShort)
open Text (MayBe)

namespace Decimal

/-- A number below 100 with two digits, and with a single one if that is enough. -/
def shortTexts (n : Nat) : List (List Char) :=
  if n < 10 then [padded 2 n, padded 1 n] else [padded 2 n]

theorem writes_padded {width n : Nat} (h : n < 10 ^ (width + 1)) :
    Writes (width + 1) n (padded (width + 1) n) :=
  ⟨length_padded (length_toDigits_of_lt h), fun _ => isDigit_of_mem_padded, value_padded _ n⟩

theorem writesShort_of_mem_shortTexts {n : Nat} {text : List Char} (hn : n < 100)
    (h : text ∈ shortTexts n) : WritesShort n text := by
  have htwo : Writes 2 n (padded 2 n) := writes_padded hn
  rw [shortTexts] at h
  split at h
  · next hone =>
    simp only [List.mem_cons, List.not_mem_nil, or_false] at h
    rcases h with rfl | rfl
    · exact .inr htwo
    · exact .inl (writes_padded hone)
  · rw [List.mem_singleton] at h
    subst h
    exact .inr htwo

end Decimal

namespace Date

/-- The texts of a day by its month or by its place in the year. -/
def isoTexts (d : Date) : List (List Char) :=
  let y := Decimal.padded 4 d.year.natAbs
  let m := Decimal.padded 2 d.month
  let k := Decimal.padded 2 d.day
  let n := Decimal.padded 3 (d.dayOfYear + 1)
  [y ++ '-' :: (m ++ '-' :: k), y ++ (m ++ k), y ++ '-' :: n, y ++ n]

def outdatedTexts (d : Date) : List (List Char) :=
  let y := Decimal.padded 4 d.year.natAbs
  (Decimal.shortTexts d.month).flatMap fun m =>
    (Decimal.shortTexts d.day).flatMap fun k =>
      [y ++ '/' :: (m ++ '/' :: k), m ++ '/' :: (k ++ '/' :: y), y ++ '-' :: (m ++ '-' :: k)]

/-- The texts of a day by its week. -/
def weekTexts (d : Date) : List (List Char) :=
  let y := Decimal.padded 4 d.weekYear.natAbs
  let w := Decimal.padded 2 d.week
  let k := Decimal.padded 1 (Weekday.position .monday d.weekday + 1)
  ['W', 'w'].flatMap fun letter =>
    [y ++ '-' :: letter :: (w ++ '-' :: k), y ++ letter :: (w ++ k),
      y ++ '-' :: letter :: (w ++ k), y ++ letter :: (w ++ '-' :: k)]

variable {d : Date} {text : String}

private theorem mayBe_dash : MayBe '-' ['-'] := .inr rfl

private theorem mayBe_nothing : MayBe '-' [] := .inl rfl

private theorem writes_year (h : d.HasPlainYear) :
    Writes 4 d.year.natAbs (Decimal.padded 4 d.year.natAbs) := by
  obtain ⟨hlo, hhi⟩ := h
  exact Decimal.writes_padded (by omega)

private theorem ofYmd?_natAbs_year (h : d.HasPlainYear) :
    ofYmd? d.year.natAbs d.month d.day = some d :=
  ofYmd?_eq_some_iff.mpr ⟨(Int.natAbs_of_nonneg h.1).symm, rfl, rfl⟩

private theorem month_and_day_lt (d : Date) : d.month < 100 ∧ d.day < 100 := by
  have hmonth := d.month_le
  have hday := d.day_le
  have hlength := Year.monthLength_le (Year.isLeap d.year) d.month
  omega

theorem parse_of_mem_isoTexts (h : d.HasPlainYear) (htext : text.toList ∈ d.isoTexts) :
    Date.parse text = .ok d := by
  have hy := writes_year h
  have hm : Writes 2 d.month (Decimal.padded 2 d.month) :=
    Decimal.writes_padded d.month_and_day_lt.1
  have hk : Writes 2 d.day (Decimal.padded 2 d.day) := Decimal.writes_padded d.month_and_day_lt.2
  have hn : Writes 3 (d.dayOfYear + 1) (Decimal.padded 3 (d.dayOfYear + 1)) := by
    have hlt := d.dayOfYear_lt
    have hle := Year.length_le d.year
    exact Decimal.writes_padded (by omega)
  have hcalendar : DayName.date? (.calendar d.year.natAbs d.month d.day) = some d :=
    ofYmd?_natAbs_year h
  have hordinal : DayName.date? (.ordinal d.year.natAbs (d.dayOfYear + 1)) = some d :=
    ofOrdinal?_eq_some_iff.mpr ⟨(Int.natAbs_of_nonneg h.1).symm, rfl⟩
  have read {name : DayName} (hwritten : name.Written text.toList) (hdate : name.date? = some d) :
      Date.parse text = .ok d := (Spelling.Written.day hwritten).parse_eq_ok_iff.mpr hdate
  simp only [isoTexts, List.mem_cons, List.not_mem_nil, or_false] at htext
  rcases htext with htext | htext | htext | htext
  · exact read (htext ▸ .dashed hy hm hk) hcalendar
  · exact read (htext ▸ .plain hy hm hk) hcalendar
  · exact read (htext ▸ .ordinal hy mayBe_dash hn) hordinal
  · have hwritten := DayName.Written.ordinal hy mayBe_nothing hn
    rw [List.nil_append] at hwritten
    exact read (htext ▸ hwritten) hordinal

theorem parse_of_mem_outdatedTexts (h : d.HasPlainYear) (htext : text.toList ∈ d.outdatedTexts) :
    Date.parse text = .ok d := by
  have hy := writes_year h
  have hdate : Spelling.date? (.outdated d.year.natAbs d.month d.day) = some d :=
    ofYmd?_natAbs_year h
  simp only [outdatedTexts, List.mem_flatMap, List.mem_cons, List.not_mem_nil, or_false] at htext
  obtain ⟨m, hm, k, hk, htext⟩ := htext
  have hm := Decimal.writesShort_of_mem_shortTexts d.month_and_day_lt.1 hm
  have hk := Decimal.writesShort_of_mem_shortTexts d.month_and_day_lt.2 hk
  have read (hwritten : (Spelling.outdated d.year.natAbs d.month d.day).Written text.toList) :
      Date.parse text = .ok d := hwritten.parse_eq_ok_iff.mpr hdate
  rcases htext with htext | htext | htext
  · exact read (htext ▸ .slashed hy hm hk)
  · exact read (htext ▸ .monthFirst hm hk hy)
  · exact read (htext ▸ .loose hy hm hk)

private theorem exists_weekday_digit (day : Weekday) :
    ∃ digit, Decimal.padded 1 (Weekday.position .monday day + 1) = [digit] ∧
      '1' ≤ digit ∧ digit ≤ '7' ∧ Weekday.ofNumber (Decimal.value [digit]) = day := by
  cases day <;> exact ⟨_, rfl, by decide, by decide, rfl⟩

theorem week_le (d : Date) : d.week ≤ 53 := by
  have hyear := weekYear_eq_iff.mp (Eq.refl d.weekYear)
  have hlength := Year.length_le d.weekYear
  rw [Year.start_add_one] at hyear
  rw [week]
  omega

theorem parse_of_mem_weekTexts (h : 0 ≤ d.weekYear ∧ d.weekYear ≤ 9999)
    (htext : text.toList ∈ d.weekTexts) : Date.parse text = .ok d := by
  obtain ⟨digit, hdigit, hlo, hhi, hday⟩ := exists_weekday_digit d.weekday
  have hweek := d.week_le
  have hy : Writes 4 d.weekYear.natAbs (Decimal.padded 4 d.weekYear.natAbs) :=
    Decimal.writes_padded (by omega)
  have hw : Writes 2 d.week (Decimal.padded 2 d.week) := Decimal.writes_padded (by omega)
  have hdate : Spelling.date? (.iso (.week d.weekYear.natAbs d.week
      (.ofNumber (Decimal.value [digit]))) none) = some d := by
    rw [hday]
    exact ofIsoWeek?_eq_some_iff.mpr ⟨(Int.natAbs_of_nonneg h.1).symm, rfl, rfl⟩
  simp only [weekTexts, hdigit, List.mem_flatMap, List.mem_cons, List.not_mem_nil, or_false]
    at htext
  obtain ⟨letter, hletter, htext⟩ := htext
  refine (Spelling.Written.day ?_).parse_eq_ok_iff.mpr hdate
  rcases htext with htext | htext | htext | htext
  · exact htext ▸ .weekday hy mayBe_dash hletter hw mayBe_dash hlo hhi
  · exact htext ▸ .weekday hy mayBe_nothing hletter hw mayBe_nothing hlo hhi
  · exact htext ▸ .weekday hy mayBe_dash hletter hw mayBe_nothing hlo hhi
  · exact htext ▸ .weekday hy mayBe_nothing hletter hw mayBe_dash hlo hhi

private theorem parse_week_eq_impossible_iff {y w : Nat} {weekday : Weekday}
    (h : (DayName.week y w weekday).Written text.toList) :
    Date.parse text = .error (.impossible text) ↔ w = 0 ∨ weeksOfYear y < w := by
  have hyear : y < 10000 := by
    generalize text.toList = chars at h
    cases h with
    | week hys | weekday hys => exact hys.lt
  have hdate : Spelling.date? (.iso (.week y w weekday) none) = ofIsoWeek? y w weekday := rfl
  rw [(Spelling.Written.day h).parse_eq_impossible_iff, hdate, ofIsoWeek?_eq_none_iff weekday hyear,
    weekCount_eq (by omega) (by omega)]

private theorem parse_ordinal_eq_impossible_iff {y n : Nat}
    (h : (DayName.ordinal y n).Written text.toList) :
    Date.parse text = .error (.impossible text) ↔
      ∀ d : Date, ¬ (d.year = y ∧ d.dayOfYear + 1 = n) := by
  have hdate : Spelling.date? (.iso (.ordinal y n) none) = ofOrdinal? y n := rfl
  rw [(Spelling.Written.day h).parse_eq_impossible_iff, hdate, Option.eq_none_iff_forall_ne_some]
  exact forall_congr' fun d => not_congr ofOrdinal?_eq_some_iff

private theorem parse_calendar_eq_impossible_iff {y m k : Nat}
    (h : (DayName.calendar y m k).Written text.toList ∨
      (Spelling.outdated y m k).Written text.toList) :
    Date.parse text = .error (.impossible text) ↔
      ∀ d : Date, ¬ (d.year = y ∧ d.month = m ∧ d.day = k) := by
  have hnone : ofYmd? y m k = none ↔ ∀ d : Date, ¬ (d.year = y ∧ d.month = m ∧ d.day = k) := by
    rw [Option.eq_none_iff_forall_ne_some]
    exact forall_congr' fun d => not_congr ofYmd?_eq_some_iff
  rw [← hnone]
  rcases h with h | h
  · exact (Spelling.Written.day h).parse_eq_impossible_iff
  · exact h.parse_eq_impossible_iff

/-- Each text of a day is read as that day, whether it goes by the month, by the place in the year
or by the week. A text of that kind is impossible exactly if no day has it. -/
theorem parse_spellings :
    (∀ (d : Date) (text : String), 0 ≤ d.year ∧ d.year ≤ 9999 →
      text.toList ∈ d.isoTexts ++ d.outdatedTexts → Date.parse text = .ok d) ∧
    (∀ (d : Date) (text : String), 0 ≤ d.weekYear ∧ d.weekYear ≤ 9999 →
      text.toList ∈ d.weekTexts → Date.parse text = .ok d) ∧
    (∀ (y w : Nat) (weekday : Weekday) (text : String),
      (DayName.week y w weekday).Written text.toList →
        (Date.parse text = .error (.impossible text) ↔ w = 0 ∨ weeksOfYear y < w)) ∧
    (∀ (y n : Nat) (text : String), (DayName.ordinal y n).Written text.toList →
      (Date.parse text = .error (.impossible text) ↔
        ∀ d : Date, ¬ (d.year = y ∧ d.dayOfYear + 1 = n))) ∧
    ∀ (y m k : Nat) (text : String),
      (DayName.calendar y m k).Written text.toList ∨
          (Spelling.outdated y m k).Written text.toList →
        (Date.parse text = .error (.impossible text) ↔
          ∀ d : Date, ¬ (d.year = y ∧ d.month = m ∧ d.day = k)) := by
  refine ⟨fun d text hyear htext => ?_,
    fun d text hyear htext => parse_of_mem_weekTexts hyear htext,
    fun y w weekday text h => parse_week_eq_impossible_iff h,
    fun y n text h => parse_ordinal_eq_impossible_iff h,
    fun y m k text h => parse_calendar_eq_impossible_iff h⟩
  rcases List.mem_append.mp htext with htext | htext
  · exact parse_of_mem_isoTexts hyear htext
  · exact parse_of_mem_outdatedTexts hyear htext

/-- The first day of 2021 belongs to the last week of 2020, which has 53 weeks and 2021 has not. -/
theorem parse_new_year_by_week :
    let d : Date := ⟨Year.start 2021, by decide⟩
    Date.parse "2020w53-5" = .ok d ∧ Date.parse "1/01/2021" = .ok d ∧
      Date.parse "2021-W53" = .error (.impossible "2021-W53") := by
  intro d
  obtain ⟨hmonth, hweek, hno, -, -⟩ := parse_spellings
  have hyear : Decimal.Writes 4 2021 ['2', '0', '2', '1'] := ⟨rfl, List.all_eq_true.mp rfl, rfl⟩
  have hlast : Decimal.Writes 2 53 ['5', '3'] := ⟨rfl, List.all_eq_true.mp rfl, rfl⟩
  refine ⟨hweek d _ (by decide) (by decide), hmonth d _ (by decide) (by decide), ?_⟩
  exact (hno 2021 53 .monday "2021-W53" (.week hyear mayBe_dash (.inl rfl) hlast)).mpr
    (by decide)

end Date

end DayRoster
