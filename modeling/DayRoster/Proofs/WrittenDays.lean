import DayRoster.Proofs.CanonicalText
import DayRoster.Proofs.RuleEffects
import DayRoster.Proofs.TimeOfDay

/-!
The days that a text can reach: 1 January of year 0 to 3 January 10000. Years have four digits, but
the last week of the year 9999 ends with 2 January, and 24 o'clock sharp is one day later still. The
last supported day is far away, so that a walk over the span of a rule that was read leaves out none
of its days.
-/

set_option autoImplicit false

namespace DayRoster

theorem Spelling.Written.dayNumber_le {spelling : Spelling} {text : List Char} {d : Date}
    (h : spelling.Written text) (hdate : spelling.date? = some d) :
    d.dayNumber ≤ Year.start 10000 + 2 := by
  have of_fields {y m k : Nat} (hfields : Date.ofYmd? y m k = some d) (hy : y < 10000) :
      d.dayNumber ≤ Year.start 10000 + 2 := by
    obtain ⟨hyear, -, -⟩ := Date.ofYmd?_eq_some_iff.mp hfields
    have hlt : d.dayNumber < Year.start 10000 := Date.year_lt_iff.mp (by omega)
    omega
  cases h with
  | day hname =>
    have hlt := hname.dayNumber_lt hdate
    omega
  | dayAndTime hname _ =>
    obtain ⟨offset, hoffset, start, hstart, hlater⟩ := date?_with_time_eq_some_iff.mp hdate
    have hlt := hname.dayNumber_lt hstart
    have hone := ClockTime.dayOffset?_le hoffset
    have hsum := Date.ofDayNumber?_eq_some_iff.mp hlater
    omega
  | slashed hys => exact of_fields hdate hys.lt
  | monthFirst _ _ hys => exact of_fields hdate hys.lt
  | loose hys => exact of_fields hdate hys.lt
  | compact hys => exact of_fields hdate hys.lt

def Text.IsSigned (text : String) : Prop := ∃ c ∈ text.toList.head?, c = '+' ∨ c = '-'

namespace Date

variable {d : Date}

theorem dayNumber_of_parse {text : String} (h : Date.parse text = .ok d) :
    0 ≤ d.dayNumber ∧ d.dayNumber ≤ Year.start 10000 + 2 := by
  obtain ⟨spelling, hread, hdate⟩ := parse_eq_ok_iff.mp h
  have hyear := year_nonneg_of_parse h
  exact ⟨(year_nonneg_iff d).mp hyear, (Spelling.written_of_read? hread).dayNumber_le hdate⟩

/-- The days after the year 9999 that a text can reach are written by the last week of that year. -/
private theorem exists_parse_of_last_week (hlo : Year.start 10000 ≤ d.dayNumber)
    (hhi : d.dayNumber ≤ Year.start 10000 + 2) : ∃ text, Date.parse text = .ok d := by
  have hcases : d.dayNumber = Year.start 10000 ∨ d.dayNumber = Year.start 10000 + 1 ∨
      d.dayNumber = Year.start 10000 + 2 := by omega
  rcases hcases with hn | hn | hn
  · obtain rfl : d = ⟨Year.start 10000, by decide⟩ := Date.ext hn
    exact ⟨"9999-W52-6", by decide +kernel⟩
  · obtain rfl : d = ⟨Year.start 10000 + 1, by decide⟩ := Date.ext hn
    exact ⟨"9999-W52-7", by decide +kernel⟩
  · obtain rfl : d = ⟨Year.start 10000 + 2, by decide⟩ := Date.ext hn
    exact ⟨"9999-W52-7T24:00", by decide +kernel⟩

theorem exists_parse_iff :
    (∃ text, Date.parse text = .ok d) ↔ 0 ≤ d.dayNumber ∧ d.dayNumber ≤ Year.start 10000 + 2 := by
  constructor
  · rintro ⟨text, h⟩
    exact dayNumber_of_parse h
  · rintro ⟨hlo, hhi⟩
    by_cases hyear : d.year < 10000
    · have hplain : d.HasPlainYear := ⟨(year_nonneg_iff d).mpr hlo, by omega⟩
      exact ⟨d.text, (parse_text_eq_ok_iff d).mpr hplain⟩
    · rw [year_lt_iff, Int.not_lt] at hyear
      exact exists_parse_of_last_week hyear hhi

theorem ne_lastSupported_of_parse {text : String} (h : Date.parse text = .ok d) :
    d ≠ lastSupported := by
  rintro rfl
  have hle : Year.start 262143 - 1 ≤ Year.start 10000 + 2 := (dayNumber_of_parse h).2
  exact absurd hle (by decide)

theorem mem_range_iff_of_parse {text : String} {start stop : Date}
    (h : Date.parse text = .ok stop) : d ∈ range start stop ↔ start ≤ d ∧ d ≤ stop := by
  rw [mem_range_iff, Covers, and_congr_right_iff]
  intro _
  constructor
  · intro hd
    exact hd.1
  · intro hstop
    refine ⟨hstop, ?_⟩
    rintro rfl
    -- No supported day comes after the last one, so that it is the end of the walk.
    exact ne_lastSupported_of_parse h (le_antisymm stop.le_lastSupported hstop)

theorem isSigned_yearDigits_append (year : Int) (rest : List Char) :
    Text.IsSigned (String.ofList (yearDigits year ++ rest)) ↔ ¬ (0 ≤ year ∧ year ≤ 9999) := by
  rw [Text.IsSigned, String.toList_ofList]
  by_cases hplain : 0 ≤ year ∧ year ≤ 9999
  · have hyear : yearDigits year = Decimal.padded 4 year.natAbs := if_pos hplain
    have hne := Decimal.padded_ne_nil 4 year.natAbs
    rw [hyear, List.head?_append_of_ne_nil _ hne]
    constructor
    · rintro ⟨c, hc, hsign⟩
      have hdigit := Decimal.isDigit_of_mem_padded (List.mem_of_mem_head? hc)
      rcases hsign with rfl | rfl <;> exact absurd hdigit (by decide)
    · intro h
      exact absurd hplain h
  · obtain ⟨sign, hsign, hdigits⟩ := exists_yearDigits_eq_cons hplain
    rw [hdigits]
    exact ⟨fun _ => hplain, fun _ => ⟨sign, rfl, hsign⟩⟩

theorem isSigned_text_iff : Text.IsSigned d.text ↔ ¬ d.HasPlainYear := by
  rw [text, List.append_assoc]
  exact isSigned_yearDigits_append d.year _

theorem isSigned_key_iff : Text.IsSigned d.key ↔ ¬ d.HasPlainYear := by
  rw [key, List.append_assoc]
  exact isSigned_yearDigits_append d.year _

theorem january_iff {year : Int} {count : Nat} (hcount : count ≤ 31) :
    d.year = year ∧ d.month = 1 ∧ d.day ≤ count ↔
      Year.start year ≤ d.dayNumber ∧ d.dayNumber < Year.start year + count := by
  have hbefore : Year.daysBefore (Year.isLeap year) 1 = 0 := rfl
  have hlength : Year.monthLength (Year.isLeap year) 1 = 31 := rfl
  constructor
  · rintro ⟨rfl, hmonth, hday⟩
    have hnumber := d.dayNumber_eq
    have hone := d.one_le_day
    rw [hmonth, hbefore] at hnumber
    omega
  · rintro ⟨hlo, hhi⟩
    obtain ⟨n, hn⟩ := Int.le.dest hlo
    obtain ⟨hyear, hmonth, hday⟩ : d.year = year ∧ d.month = 1 ∧ d.day = n + 1 := by
      apply ymd_of_dayNumber_eq (by decide) (Nat.succ_pos n) (by omega)
      rw [hbefore]
      omega
    exact ⟨hyear, hmonth, by omega⟩

theorem exists_parse_and_not_hasPlainYear_iff :
    (∃ text, Date.parse text = .ok d) ∧ ¬ d.HasPlainYear ↔
      d.year = 10000 ∧ d.month = 1 ∧ d.day ≤ 3 := by
  have hyear : 10000 ≤ d.year ↔ Year.start 10000 ≤ d.dayNumber := by
    rw [← Int.not_lt, year_lt_iff, Int.not_lt]
  have hzero : 0 ≤ Year.start 10000 := by decide
  rw [january_iff (by decide), exists_parse_iff, HasPlainYear, ← hyear, year_nonneg_iff]
  omega

end Date

namespace Roster

/-- A text can be read as any day from 1 January of year 0 to 3 January 10000, and as no other day.
Of these days, the first three of the year 10000 are printed with a sign. A rule that was read
touches every day of its span, whatever agenda it is applied to. -/
theorem reach_of_texts :
    (∃ first last, Date.ofYmd? 0 1 1 = some first ∧ Date.ofYmd? 10000 1 3 = some last ∧
      ∀ d, (∃ text, Date.parse text = .ok d) ↔ first ≤ d ∧ d ≤ last) ∧
    (∀ d : Date, ∀ printed ∈ [d.text, d.key],
      (∃ text, Date.parse text = .ok d) ∧ Text.IsSigned printed ↔
        d.year = 10000 ∧ d.month = 1 ∧ d.day ≤ 3) ∧
    ∀ (text : String) (roster : Roster), Roster.parse text = .ok roster →
      ∀ rule ∈ roster.rules,
        rule.start ≠ Date.lastSupported ∧ rule.stop ≠ Date.lastSupported ∧
        (∀ d, d ∈ Date.range rule.start rule.stop ↔ rule.start ≤ d ∧ d ≤ rule.stop) ∧
        ∀ (agenda : Agenda) (d : Date), rule.start ≤ d → d ≤ rule.stop →
          (agenda.apply rule).Spans d ∧
          (agenda.settings.Passes (some rule.weekdays) d →
            (agenda.apply rule).state? d = some rule.effect.enables) := by
  refine ⟨?_, ?_, ?_⟩
  · have hfirst : Date.ofYmd? 0 1 1 = some ⟨0, by decide⟩ := by decide
    have hlast : Date.ofYmd? 10000 1 3 = some ⟨Year.start 10000 + 2, by decide⟩ := by decide
    exact ⟨_, _, hfirst, hlast, fun d => Date.exists_parse_iff⟩
  · intro d printed hprinted
    rw [← Date.exists_parse_and_not_hasPlainYear_iff]
    rcases List.mem_pair.mp hprinted with rfl | rfl
    · rw [Date.isSigned_text_iff]
    · rw [Date.isSigned_key_iff]
  · intro text roster hread rule hrule
    obtain ⟨line, -, hwritten⟩ := written_of_parse hread hrule
    obtain ⟨first, last, hstart, hstop⟩ := hwritten.exists_dates
    have hwalk (d : Date) : d ∈ Date.range rule.start rule.stop ↔ rule.start ≤ d ∧ d ≤ rule.stop :=
      Date.mem_range_iff_of_parse hstop
    refine ⟨Date.ne_lastSupported_of_parse hstart, Date.ne_lastSupported_of_parse hstop, hwalk, ?_⟩
    intro agenda d hlo hhi
    have htouches : rule.Touches d := Date.mem_range_iff.mp ((hwalk d).mpr ⟨hlo, hhi⟩)
    constructor
    · have hmem : rule ∈ [rule] := List.mem_cons_self
      exact Agenda.spans_foldl_apply hmem htouches agenda
    · intro hpasses
      exact agenda.state?_apply_of_writes ⟨htouches, hpasses⟩

/-- A rule from the first day of a text to the last one. -/
theorem reach_of_widest_rule :
    ∃ rule, Roster.parse "Ann include 0000 9999-W52-7T24:00" = .ok ⟨[rule]⟩ ∧
      ∀ (agenda : Agenda) (d : Date), rule.start ≤ d → d ≤ rule.stop →
        (agenda.apply rule).Spans d := by
  let rule : Rule :=
    ⟨"Ann", .inclusion, ⟨0, by decide⟩, ⟨Year.start 10000 + 2, by decide⟩, .empty⟩
  have hread : Roster.parse "Ann include 0000 9999-W52-7T24:00" = .ok ⟨[rule]⟩ := by
    decide +kernel
  obtain ⟨-, -, -, happly⟩ := reach_of_texts.2.2 _ _ hread rule List.mem_cons_self
  refine ⟨rule, hread, ?_⟩
  intro agenda d hlo hhi
  exact (happly agenda d hlo hhi).1

end Roster

end DayRoster
