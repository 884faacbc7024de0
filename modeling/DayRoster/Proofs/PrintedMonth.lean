import DayRoster.Proofs.PrintedCalendar

/-!
The printed page of a month is faithful. Each day has four characters in the line of its week, below
the first two letters of its day of the week, and they tell whether it is enabled. The blanks left
out at the end of a line take nothing off a day but the blank behind the last one, so two agendas
have the same page exactly if they agree on the days of the month.
-/

set_option autoImplicit false

namespace DayRoster

private theorem exists_flatMap_eq_append {α β : Type} {f : α → List β} {width i : Nat} {xs : List α}
    {x : α} (hwidth : ∀ y ∈ xs, (f y).length = width) (hx : xs[i]? = some x) :
    ∃ front, front.length = width * i ∧
      xs.flatMap f = front ++ (f x ++ (xs.drop (i + 1)).flatMap f) := by
  -- The induction walks down the texts in front, which the place counts.
  induction xs generalizing i with
  | nil => simp at hx
  | cons y xs ih =>
    cases i with
    | zero =>
      obtain rfl : y = x := by simpa using hx
      exact ⟨[], rfl, rfl⟩
    | succ i =>
      rw [List.getElem?_cons_succ] at hx
      obtain ⟨front, hfront, hxs⟩ := ih (fun z hz => hwidth z (List.mem_cons_of_mem y hz)) hx
      refine ⟨f y ++ front, ?_, ?_⟩
      · rw [List.length_append, hwidth y List.mem_cons_self, hfront, Nat.mul_succ, Nat.add_comm]
      · rw [List.flatMap_cons, hxs, List.append_assoc, List.drop_succ_cons]

namespace Cell

variable {cell : Cell}

theorem exists_not_blank (h : cell.Fits) (hday : cell ≠ .outside) :
    ∃ c ∈ cell.chars, Text.isBlank c = false := by
  cases cell with
  | outside => exact absurd rfl hday
  | enabled day =>
    obtain ⟨tens, units, haligned, hdigit⟩ := Decimal.exists_aligned_two h
    exact ⟨units, by simp [chars, haligned], Text.not_blank_of_isDigit hdigit⟩
  | disabled day => exact ⟨'[', by simp [chars], by decide⟩

theorem trimEnd_chars_enabled {day : Nat} (h : day < 100) :
    Text.trimEnd (enabled day).chars = ' ' :: Decimal.aligned 2 day := by
  obtain ⟨tens, units, haligned, hdigit⟩ := Decimal.exists_aligned_two h
  have hblank : ∀ c ∈ [' '], Text.isBlank c := List.forall_mem_singleton.mpr (by decide)
  rw [chars, Text.trimEnd_append_of_blank hblank, haligned]
  apply Text.trimEnd_eq_self
  intro c hc
  obtain rfl : units = c := by simpa using hc
  exact Text.not_blank_of_isDigit hdigit

theorem trimEnd_chars_disabled (day : Nat) :
    Text.trimEnd (disabled day).chars = (disabled day).chars := by
  apply Text.trimEnd_eq_self
  intro c hc
  rw [chars, List.getLast?_append] at hc
  obtain rfl : ']' = c := by simpa using hc
  decide

end Cell

namespace Page

/-- The four characters of a line in a column. At the end of the line there may be fewer. -/
def charsAt (line : String) (column : Nat) : List Char := (line.toList.drop (4 * column)).take 4

theorem charsAt_ofList {front rest : List Char} {column : Nat} (h : front.length = 4 * column) :
    charsAt (String.ofList (front ++ rest)) column = rest.take 4 := by
  rw [charsAt, String.toList_ofList, ← h, List.drop_left]

theorem length_heading (day : Weekday) : (heading day).length = 4 := by
  cases day <;> rfl

theorem charsAt_headings (settings : Settings) (d : Date) :
    charsAt (String.ofList (settings.weekdays.flatMap heading)) (settings.position d) =
      heading d.weekday := by
  have hday : settings.weekdays[settings.position d]? = some d.weekday :=
    Weekday.getElem?_week_position settings.weekStart d.weekday
  obtain ⟨front, hfront, hline⟩ := exists_flatMap_eq_append (fun day _ => length_heading day) hday
  rw [hline, charsAt_ofList hfront]
  exact List.take_left' (length_heading d.weekday)

section WeekLine

variable {week : List Cell} {cell : Cell} {column : Nat}

/-- A day has all of its four characters if another day stands behind it in the line. -/
theorem charsAt_weekLine (hfits : ∀ cell ∈ week, cell.Fits) (hcell : week[column]? = some cell)
    (hbehind : ∃ later ∈ week.drop (column + 1), later ≠ .outside) :
    charsAt (weekLine week) column = cell.chars := by
  obtain ⟨front, hfront, hline⟩ :=
    exists_flatMap_eq_append (fun cell hcell => Cell.length_chars (hfits cell hcell)) hcell
  have hkept : ∃ c ∈ (week.drop (column + 1)).flatMap Cell.chars, Text.isBlank c = false := by
    obtain ⟨later, hlater, hday⟩ := hbehind
    obtain ⟨c, hc, hblank⟩ := Cell.exists_not_blank (hfits later (List.mem_of_mem_drop hlater)) hday
    exact ⟨c, List.mem_flatMap.mpr ⟨later, hlater, hc⟩, hblank⟩
  rw [weekLine, hline, ← List.append_assoc, Text.trimEnd_append hkept, List.append_assoc,
    charsAt_ofList hfront]
  exact List.take_left' (Cell.length_chars (hfits cell (List.mem_of_getElem? hcell)))

/-- The last day of a line loses the blanks at its end. -/
theorem charsAt_weekLine_last (hfits : ∀ cell ∈ week, cell.Fits) (hcell : week[column]? = some cell)
    (hday : cell ≠ .outside) (hlast : ∀ later ∈ week.drop (column + 1), later = .outside) :
    charsAt (weekLine week) column = Text.trimEnd cell.chars := by
  have hcellFits := hfits cell (List.mem_of_getElem? hcell)
  obtain ⟨front, hfront, hline⟩ :=
    exists_flatMap_eq_append (fun cell hcell => Cell.length_chars (hfits cell hcell)) hcell
  have hblank : ∀ c ∈ (week.drop (column + 1)).flatMap Cell.chars, Text.isBlank c := by
    intro c hc
    obtain ⟨later, hlater, hc⟩ := List.mem_flatMap.mp hc
    obtain rfl := hlast later hlater
    obtain rfl : c = ' ' := by simpa [Cell.chars] using hc
    decide
  have hshort : (Text.trimEnd cell.chars).length ≤ 4 :=
    Cell.length_chars hcellFits ▸ (List.rdropWhile_prefix Text.isBlank cell.chars).length_le
  rw [weekLine, hline, ← List.append_assoc, Text.trimEnd_append_of_blank hblank,
    Text.trimEnd_append (Cell.exists_not_blank hcellFits hday), charsAt_ofList hfront,
    List.take_of_length_le hshort]

end WeekLine

variable {settings : Settings} {agenda other : Agenda} {m : Month}

theorem cell_eq_outside_iff {place : Option Nat} : cell agenda m place = .outside ↔ place = none := by
  cases place with
  | none => simp [cell]
  | some k =>
    rw [cell]
    split <;> simp

theorem cell_of_day? {k : Nat} {d : Date} (h : m.day? k = some d) :
    cell agenda m (some k) = if agenda.isEnabled d then .enabled k else .disabled k := by
  rw [cell, h, Option.any_some]

theorem getElem?_lines_ofMonth (row : Nat) :
    (ofMonth settings agenda m).lines[row + 2]? =
      (m.weeks settings.weekStart)[row]?.map fun week => weekLine (week.map (cell agenda m)) := by
  simp only [lines, ofMonth, List.getElem?_cons_succ, List.getElem?_map, Option.map_map]
  rfl

private theorem charsAt_line_of_day? (agenda : Agenda) {week : List (Option Nat)}
    {row column k : Nat} {d : Date} (hweek : (m.weeks settings.weekStart)[row]? = some week)
    (hk : week[column]? = some (some k)) (h : m.day? k = some d) :
    charsAt (weekLine (week.map (cell agenda m))) column =
      if agenda.isEnabled d then
        ' ' :: Decimal.aligned 2 k ++ if column = 6 ∨ k = m.dayCount then [] else [' ']
      else
        '[' :: Decimal.aligned 2 k ++ [']'] := by
  have hfits : ∀ shown ∈ week.map (cell agenda m), shown.Fits :=
    fun _ => fits_cell settings agenda m (List.mem_of_getElem? hweek)
  have hcell : (week.map (cell agenda m))[column]? = some (cell agenda m (some k)) := by
    rw [List.getElem?_map, hk, Option.map_some]
  have hbehind : (∃ later ∈ (week.map (cell agenda m)).drop (column + 1), later ≠ .outside) ↔
      ¬ (column = 6 ∨ k = m.dayCount) := by
    rw [← Month.exists_day_behind_iff hweek hk, ← List.map_drop]
    simp only [List.mem_map, exists_exists_and_eq_and, ne_eq, cell_eq_outside_iff]
  by_cases hlast : column = 6 ∨ k = m.dayCount
  · have houtside : ∀ later ∈ (week.map (cell agenda m)).drop (column + 1), later = .outside := by
      simpa using mt hbehind.mp (not_not_intro hlast)
    have hday : cell agenda m (some k) ≠ .outside := by simp [cell_eq_outside_iff]
    have hfit := hfits _ (List.mem_of_getElem? hcell)
    rw [charsAt_weekLine_last hfits hcell hday houtside, if_pos hlast, List.append_nil]
    rw [cell_of_day? h] at hfit ⊢
    split
    · next henabled =>
      rw [if_pos henabled] at hfit
      exact Cell.trimEnd_chars_enabled hfit
    · exact Cell.trimEnd_chars_disabled k
  · rw [charsAt_weekLine hfits hcell (hbehind.mpr hlast), if_neg hlast, cell_of_day? h]
    split <;> rfl

private theorem lines_ofMonth_eq_iff :
    (ofMonth settings agenda m).lines = (ofMonth settings other m).lines ↔
      ∀ d, Month.containing d = m → agenda.isEnabled d = other.isEnabled d := by
  constructor
  · intro h d hd
    -- The enabled days can be read off the lines.
    have hdays : m.dates.filter agenda.isEnabled = m.dates.filter other.isEnabled := by
      apply List.map_injective_iff.mpr (Option.some_injective Date)
      rw [← unbracketed_ofMonth settings, ← unbracketed_ofMonth settings, unbracketed, unbracketed,
        shown, shown, h]
      rfl
    have hmem : d ∈ m.dates := Month.mem_dates_iff.mpr hd
    have hiff := congrArg (d ∈ ·) hdays
    simpa [List.mem_filter, hmem] using hiff
  · intro h
    have hcell : cell agenda m = cell other m := by
      funext place
      cases place with
      | none => rfl
      | some k =>
        cases hd : m.day? k with
        | none => rw [cell, cell, hd, Option.any_none, Option.any_none]
        | some d => rw [cell_of_day? hd, cell_of_day? hd, h d (Month.day?_eq_some_iff.mp hd).1]
    rw [ofMonth, ofMonth, hcell]

/-- Two agendas have the same lines for a month exactly if they agree on its days. Each day stands
in the line of its week, below the first two letters of its day of the week: in brackets if it is
not enabled, and else between blanks, of which the last day of a line keeps only the one in
front. -/
theorem lines_ofMonth_faithful (settings : Settings) (m : Month) :
    (∀ agenda other : Agenda,
      (ofMonth settings agenda m).lines = (ofMonth settings other m).lines ↔
        ∀ d, Month.containing d = m → agenda.isEnabled d = other.isEnabled d) ∧
    ∀ (agenda : Agenda) (k : Nat), 1 ≤ k → k ≤ m.dayCount → ∃ d row headings line,
      m.day? k = some d ∧
      m.cellAt? settings.weekStart row (settings.position d) = some (some k) ∧
      (ofMonth settings agenda m).lines[1]? = some headings ∧
      (ofMonth settings agenda m).lines[row + 2]? = some line ∧
      charsAt headings (settings.position d) = ' ' :: d.weekday.name.toList.take 2 ++ [' '] ∧
      charsAt line (settings.position d) =
        if agenda.isEnabled d then
          ' ' :: Decimal.aligned 2 k ++ if settings.position d = 6 ∨ k = m.dayCount then [] else [' ']
        else
          '[' :: Decimal.aligned 2 k ++ [']'] := by
  refine ⟨fun agenda other => lines_ofMonth_eq_iff, fun agenda k hlo hhi => ?_⟩
  obtain ⟨d, hd⟩ := Month.exists_day?_eq_some hlo hhi
  obtain ⟨row, hplaces⟩ := Month.exists_cellAt?_iff hd settings.weekStart
  have hplace := (hplaces row (settings.position d)).mpr ⟨rfl, rfl⟩
  obtain ⟨week, hweek, hk⟩ := Option.bind_eq_some_iff.mp hplace
  have hline : (ofMonth settings agenda m).lines[row + 2]? =
      some (weekLine (week.map (cell agenda m))) := by
    rw [getElem?_lines_ofMonth, hweek, Option.map_some]
  exact ⟨d, row, _, _, hd, hplace, rfl, hline, charsAt_headings settings d,
    charsAt_line_of_day? agenda hweek hk hd⟩

/-- 30 June 2020 is a Tuesday and the last day of its line. -/
theorem lines_ofMonth_end_of_june :
    let last : Date := ⟨Year.start 2020 + 181, by decide⟩
    let june := Month.containing last
    let agenda := Agenda.write {} last true none
    (1 ≤ 30 ∧ 30 ≤ june.dayCount ∧ ∃ headings line,
      (ofMonth {} agenda june).lines[1]? = some headings ∧ line ∈ (ofMonth {} agenda june).lines ∧
        charsAt headings 2 = [' ', 'T', 'u', ' '] ∧ charsAt line 2 = [' ', '3', '0']) ∧
      (ofMonth {} agenda june).lines ≠ (ofMonth {} {} june).lines := by
  intro last june agenda
  obtain ⟨hsame, hdays⟩ := lines_ofMonth_faithful {} june
  have hcount : 30 ≤ june.dayCount := by decide +kernel
  have hcolumn : Settings.position {} last = 2 := by decide +kernel
  have henabled : agenda.isEnabled last := by decide +kernel
  obtain ⟨d, row, headings, line, hd, -, hheadings, hline, hheading, hchars⟩ :=
    hdays agenda 30 (by decide) hcount
  have hlast : june.day? 30 = some last := by decide +kernel
  obtain rfl : last = d := Option.some.inj (hlast.symm.trans hd)
  rw [hcolumn] at hheading hchars
  refine ⟨⟨by decide, hcount, headings, line, hheadings, List.mem_of_getElem? hline, ?_, ?_⟩, ?_⟩
  · rw [hheading]
    decide +kernel
  · rw [hchars, if_pos henabled]
    decide +kernel
  · rw [ne_eq, hsame]
    intro h
    exact absurd (h last rfl) (by decide +kernel)

end Page

end DayRoster
