import DayRoster.Page
import DayRoster.Proofs.LineText

/-!
The line of a week can be read back. Its cells take four characters each, and the blanks that were
left out at its end are known from the length of a week.
-/

set_option autoImplicit false

namespace DayRoster

/-- Blanks at the end of a text can be put back if they are all spaces and the length is known. -/
theorem Text.rightpad_trimEnd {text : List Char} (h : ∀ c ∈ text, isBlank c → c = ' ') :
    (trimEnd text).rightpad text.length ' ' = text := by
  let blanks := (text.reverse.takeWhile isBlank).reverse
  have htext : trimEnd text ++ blanks = text := by
    rw [trimEnd, ← List.reverse_append, List.takeWhile_append_dropWhile, List.reverse_reverse]
  have hblanks : blanks = List.replicate blanks.length ' ' := by
    refine List.eq_replicate_iff.mpr ⟨rfl, fun c hc => ?_⟩
    refine h c (htext ▸ List.mem_append_right _ hc) ?_
    exact List.mem_takeWhile_imp (List.mem_reverse.mp hc)
  have hlength : text.length - (trimEnd text).length = blanks.length := by
    rw [← htext, List.length_append, htext, Nat.add_sub_cancel_left]
  rw [List.rightpad, hlength, ← hblanks, htext]

theorem Decimal.filter_isDigit_aligned (width n : Nat) :
    (aligned width n).filter Char.isDigit = Nat.toDigits 10 n := by
  have hdigits : ∀ c ∈ Nat.toDigits 10 n, c.isDigit :=
    fun c => Nat.isDigit_of_mem_toDigits (by decide) (by decide)
  rw [aligned, List.leftpad, List.filter_append, List.filter_eq_self.mpr hdigits,
    List.filter_replicate_of_neg (by decide), List.nil_append]

theorem Decimal.exists_aligned_two {n : Nat} (h : n < 100) :
    ∃ tens units, aligned 2 n = [tens, units] ∧ units.isDigit := by
  have hlength : (Nat.toDigits 10 n).length ≤ 2 :=
    (Nat.length_toDigits_le_iff (by decide) (by decide)).mpr h
  have htwo : (aligned 2 n).length = 2 := by
    rw [aligned, List.length_leftpad]
    omega
  obtain ⟨tens, units, haligned⟩ := List.length_eq_two.mp htwo
  have hlast : (Nat.toDigits 10 n).getLast? = some units := by
    have hpadded := congrArg List.getLast? haligned
    rwa [aligned, List.leftpad, List.getLast?_append_of_ne_nil _ Nat.toDigits_ne_nil] at hpadded
  refine ⟨tens, units, haligned, ?_⟩
  exact Nat.isDigit_of_mem_toDigits (by decide) (by decide) (List.mem_of_mem_getLast? hlast)

namespace Cell

/-- The days that have one or two digits, as the days of a month do. -/
def Fits : Cell → Prop
  | outside => True
  | enabled day | disabled day => day < 100

/-- What four characters show: a number in brackets, a number between blanks, or no number. -/
def ofChars : List Char → Cell
  | ['[', tens, units, ']'] => .disabled (Decimal.value ([tens, units].filter Char.isDigit))
  | [' ', tens, units, ' '] =>
    if units.isDigit then .enabled (Decimal.value ([tens, units].filter Char.isDigit))
    else .outside
  | _ => .outside

def readAll : List Char → List Cell
  | a :: b :: c :: d :: rest => ofChars [a, b, c, d] :: readAll rest
  | _ => []

/-- What the line of a week shows, with the blanks at its end put back. -/
def readWeek (line : String) : List Cell := readAll (line.toList.rightpad 28 ' ')

theorem length_chars {cell : Cell} (h : cell.Fits) : cell.chars.length = 4 := by
  cases cell with
  | outside => rfl
  | enabled day | disabled day =>
    obtain ⟨tens, units, haligned, -⟩ := Decimal.exists_aligned_two h
    simp [chars, haligned]

theorem eq_space_of_blank {cell : Cell} {c : Char} (hc : c ∈ cell.chars) (hblank : Text.isBlank c) :
    c = ' ' := by
  have haligned : ∀ day, c ∈ Decimal.aligned 2 day → c = ' ' := by
    intro day hc
    rw [Decimal.aligned, List.leftpad, List.mem_append] at hc
    rcases hc with hc | hc
    · exact List.eq_of_mem_replicate hc
    · have hdigit := Nat.isDigit_of_mem_toDigits (by decide) (by decide) hc
      exact absurd hblank (Bool.eq_false_iff.mp (Text.not_blank_of_isDigit hdigit))
  cases cell with
  | outside => simpa [chars] using hc
  | enabled day =>
    simp only [chars, List.cons_append, List.mem_cons, List.mem_append, List.not_mem_nil,
      or_false] at hc
    rcases hc with rfl | hc | rfl
    · rfl
    · exact haligned day hc
    · rfl
  | disabled day =>
    simp only [chars, List.cons_append, List.mem_cons, List.mem_append, List.not_mem_nil,
      or_false] at hc
    rcases hc with rfl | hc | rfl
    · exact absurd hblank (by decide)
    · exact haligned day hc
    · exact absurd hblank (by decide)

private theorem readAll_chars_append {cell : Cell} (h : cell.Fits) (rest : List Char) :
    readAll (cell.chars ++ rest) = cell :: readAll rest := by
  have hvalue : ∀ {day : Nat} {tens units : Char}, Decimal.aligned 2 day = [tens, units] →
      Decimal.value ([tens, units].filter Char.isDigit) = day := by
    intro day tens units haligned
    rw [← haligned, Decimal.filter_isDigit_aligned]
    exact Nat.ofDigitChars_ten_toDigits
  cases cell with
  | outside => rfl
  | enabled day =>
    obtain ⟨tens, units, haligned, hdigit⟩ := Decimal.exists_aligned_two h
    rw [chars, haligned]
    change (if units.isDigit then _ else _) :: readAll rest = _
    rw [if_pos hdigit, hvalue haligned]
  | disabled day =>
    obtain ⟨tens, units, haligned, -⟩ := Decimal.exists_aligned_two h
    rw [chars, haligned]
    change disabled _ :: readAll rest = _
    rw [hvalue haligned]

theorem readAll_flatMap_chars {week : List Cell} (h : ∀ cell ∈ week, cell.Fits) :
    readAll (week.flatMap chars) = week := by
  induction week with
  | nil => rfl
  | cons cell week ih =>
    rw [List.flatMap_cons, readAll_chars_append (h cell List.mem_cons_self),
      ih fun other hother => h other (List.mem_cons_of_mem cell hother)]

theorem readWeek_weekLine {week : List Cell} (hlength : week.length = 7)
    (h : ∀ cell ∈ week, cell.Fits) : readWeek (Page.weekLine week) = week := by
  have hchars : (week.flatMap chars).length = 28 := by
    have hsum : (week.map fun cell => cell.chars.length) = List.replicate 7 4 := by
      rw [List.eq_replicate_iff, List.length_map]
      refine ⟨hlength, fun n hn => ?_⟩
      obtain ⟨cell, hcell, rfl⟩ := List.mem_map.mp hn
      exact length_chars (h cell hcell)
    rw [List.length_flatMap, hsum]
    rfl
  have hspaces : ∀ c ∈ week.flatMap chars, Text.isBlank c → c = ' ' := by
    intro c hc hblank
    obtain ⟨cell, -, hc⟩ := List.mem_flatMap.mp hc
    exact eq_space_of_blank hc hblank
  have hpadded := Text.rightpad_trimEnd hspaces
  rw [hchars] at hpadded
  rw [readWeek, Page.weekLine, String.toList_ofList, hpadded, readAll_flatMap_chars h]

end Cell

end DayRoster
