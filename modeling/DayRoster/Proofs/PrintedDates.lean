import DayRoster.Proofs.DaySpellings
import DayRoster.Proofs.MonthOrder

/-!
The printed forms of a date: its text, its key and the text of its month. All three are read back in
the years 0 to 9999, and none of them is a date in another year. A sign in front of a year or a fifth
digit never passes for a part of another form.
-/

set_option autoImplicit false

namespace DayRoster

open Decimal (Writes)

private theorem dash_notMem_of_isDigit {digits : List Char} (h : ∀ c ∈ digits, c.isDigit) :
    '-' ∉ digits := by
  intro hdash
  exact absurd (h '-' hdash) (by decide)

section

variable {text : List Char}

private theorem Decimal.Writes.getElem?_four {y : Nat} {ys rest : List Char}
    (hys : Writes 4 y ys) : (ys ++ '-' :: rest)[4]? = some '-' := by
  rw [List.getElem?_append_right (by rw [hys.length_eq]), hys.length_eq]
  rfl

private def IsNumeric (text : List Char) : Prop := ∀ c ∈ text, c.isDigit ∨ c = '-'

private theorem IsNumeric.notMem (h : IsNumeric text) {upper lower c : Char}
    (hc : c = upper ∨ c = lower)
    (hother : ¬ (upper.isDigit ∨ upper = '-') ∧ ¬ (lower.isDigit ∨ lower = '-')) : c ∉ text := by
  intro hmem
  rcases hc with rfl | rfl
  · exact hother.1 (h _ hmem)
  · exact hother.2 (h _ hmem)

private theorem DayName.Written.getElem?_four {name : DayName} (h : name.Written text)
    (hnumeric : IsNumeric text) (hdash : '-' ∈ text) : text[4]? = some '-' := by
  cases h with
  | dashed hys | month hys => exact hys.getElem?_four
  | plain hys hms hds =>
    have hys := dash_notMem_of_isDigit hys.isDigit
    have hms := dash_notMem_of_isDigit hms.isDigit
    have hds := dash_notMem_of_isDigit hds.isDigit
    simp [hys, hms, hds] at hdash
  | week _ _ hletter | weekday _ _ hletter =>
    exact absurd (by simp) (hnumeric.notMem hletter (by decide))
  | ordinal hys hleft hns =>
    rcases hleft with rfl | rfl
    · have hys := dash_notMem_of_isDigit hys.isDigit
      have hns := dash_notMem_of_isDigit hns.isDigit
      simp [hys, hns] at hdash
    · exact hys.getElem?_four
  | year hys => exact absurd hdash (dash_notMem_of_isDigit hys.isDigit)

/-- If a date is written with digits and dashes only, and not without a dash, then the first dash
follows the four digits of the year. -/
private theorem Spelling.Written.getElem?_four {spelling : Spelling} (h : spelling.Written text)
    (hnumeric : IsNumeric text) (hdash : '-' ∈ text) : text[4]? = some '-' := by
  cases h with
  | day hname => exact hname.getElem?_four hnumeric hdash
  | dayAndTime _ htime =>
    cases htime with
    | intro hletter => exact absurd (by simp) (hnumeric.notMem hletter (by decide))
  | slashed | monthFirst =>
    have hslash := hnumeric.notMem (or_self_iff.mpr (Eq.refl '/')) (by decide)
    exact absurd (by simp) hslash
  | loose hys => exact hys.getElem?_four
  | compact hys hms =>
    have hys := dash_notMem_of_isDigit hys.isDigit
    have hms := dash_notMem_of_isDigit hms.isDigit
    simp [hys, hms] at hdash

end

private theorem Spelling.read?_long_year {ys rest : List Char} (hys : ∀ c ∈ ys, c.isDigit)
    (hlength : 4 < ys.length) (hrest : ∀ c ∈ rest, c.isDigit) :
    Spelling.read? (String.ofList (ys ++ '-' :: rest)) = none := by
  cases hread : Spelling.read? (String.ofList (ys ++ '-' :: rest)) with
  | none => rfl
  | some spelling =>
    have hwritten := Spelling.written_of_read? hread
    rw [String.toList_ofList] at hwritten
    have hnumeric : IsNumeric (ys ++ '-' :: rest) := by
      intro c hc
      rcases List.mem_append.mp hc with hc | hc
      · exact .inl (hys c hc)
      · rcases List.mem_cons.mp hc with rfl | hc
        · exact .inr rfl
        · exact .inl (hrest c hc)
    have hfour := hwritten.getElem?_four hnumeric (by simp)
    rw [List.getElem?_append_left hlength] at hfour
    exact absurd (List.mem_of_getElem? hfour) (dash_notMem_of_isDigit hys)

namespace Month

private theorem read?_text_eq_none {m : Month} (h : ¬ (0 ≤ m.year ∧ m.year ≤ 9999)) :
    Spelling.read? m.text = none := by
  rw [text]
  by_cases hneg : m.year < 0
  · rw [Decimal.signed, if_pos hneg]
    apply Spelling.read?_eq_none
    intro c hc
    rw [String.toList_ofList] at hc
    obtain rfl := Option.some.inj hc
    decide
  · have hlarge : ¬ m.year.natAbs < 10 ^ 4 := by omega
    rw [Decimal.signed, if_neg hneg]
    apply Spelling.read?_long_year
    · intro c
      exact Decimal.isDigit_of_mem_padded
    · have hdigits := mt (Nat.length_toDigits_le_iff (by decide) (by decide)).mp hlarge
      rw [Decimal.padded, List.length_leftpad]
      omega
    · intro c
      exact Decimal.isDigit_of_mem_padded

theorem parse_text (m : Month) :
    Date.parse m.text =
      if 0 ≤ m.year ∧ m.year ≤ 9999 then .ok m.firstDay else .error .unreadable := by
  split
  · next h =>
    have hnumber := m.number_le
    have hy : Writes 4 m.year.natAbs (Decimal.padded 4 m.year.natAbs) :=
      Decimal.writes_padded (by omega)
    have hn : Writes 2 m.number (Decimal.padded 2 m.number) := Decimal.writes_padded (by omega)
    have hwritten : (Spelling.iso (.month m.year.natAbs m.number) none).Written m.text.toList := by
      rw [text, String.toList_ofList, Decimal.signed, if_neg (by omega)]
      exact .day (.month hy hn)
    rw [hwritten.parse_eq_ok_iff]
    change Date.ofYmd? m.year.natAbs m.number 1 = some m.firstDay
    rw [Date.ofYmd?_eq_some_iff, Int.natAbs_of_nonneg h.1]
    exact m.fields_firstDay
  · next h =>
    rw [Date.parse_eq_unreadable_iff]
    exact read?_text_eq_none h

end Month

namespace Date

private theorem text_mem_isoTexts {d : Date} (h : d.HasPlainYear) :
    d.text.toList ∈ d.isoTexts := by
  have hyear : 0 ≤ d.year ∧ d.year ≤ 9999 := h
  rw [text, String.toList_ofList, yearDigits, if_pos hyear]
  simp [isoTexts]

private theorem key_mem_isoTexts {d : Date} (h : d.HasPlainYear) : d.key.toList ∈ d.isoTexts := by
  have hyear : 0 ≤ d.year ∧ d.year ≤ 9999 := h
  rw [key, String.toList_ofList, yearDigits, if_pos hyear]
  simp [isoTexts]

private theorem read?_key_eq_none {d : Date} (h : ¬ d.HasPlainYear) :
    Spelling.read? d.key = none := by
  rw [key, List.append_assoc]
  exact read?_signed_year h _

/-- The text and the key of a date are read as the date, and the text of its month as the first day
of the month, if the year is one of 0 to 9999. In any other year none of the three is a date. -/
theorem parse_printed (d : Date) :
    Date.parse d.text = (if 0 ≤ d.year ∧ d.year ≤ 9999 then .ok d else .error .unreadable) ∧
    Date.parse d.key = (if 0 ≤ d.year ∧ d.year ≤ 9999 then .ok d else .error .unreadable) ∧
    Date.parse (Month.containing d).text =
      (if 0 ≤ d.year ∧ d.year ≤ 9999 then .ok (Month.containing d).firstDay
        else .error .unreadable) := by
  obtain ⟨hyear, -⟩ := Month.containing_eq_iff.mp (Eq.refl (Month.containing d))
  rw [Month.parse_text, ← hyear]
  refine ⟨?_, ?_, rfl⟩
  · split
    · next h => exact parse_of_mem_isoTexts h (text_mem_isoTexts h)
    · next h => exact parse_eq_unreadable_iff.mpr (read?_text_eq_none h)
  · split
    · next h => exact parse_of_mem_isoTexts h (key_mem_isoTexts h)
    · next h => exact parse_eq_unreadable_iff.mpr (read?_key_eq_none h)

end Date

end DayRoster
