import DayRoster.Proofs.LineText
import DayRoster.Rule

/-!
A text is read line by line. What is read from two texts with a line end between them is what is
read from the one followed by what is read from the other, and a single line that is not blank is a
rule or an error.
-/

set_option autoImplicit false

namespace DayRoster

namespace Text

theorem trim_eq_nil_iff {text : List Char} : trim text = [] ↔ text.all isBlank := by
  rw [List.all_eq_true]
  constructor
  · intro h
    have hdrop : text.dropWhile isBlank = [] := by
      cases hrest : text.dropWhile isBlank with
      | nil => rfl
      | cons c rest =>
        have hhead := List.head?_dropWhile_not isBlank text
        rw [hrest] at hhead
        have hblank := List.rdropWhile_eq_nil_iff.mp h c (hrest ▸ List.mem_cons_self)
        exact absurd hblank (Bool.eq_false_iff.mp hhead)
    exact List.dropWhile_eq_nil_iff.mp hdrop
  · intro h
    rw [trim, List.dropWhile_eq_nil_iff.mpr h]
    rfl

theorem lines_row {row : List Char} (h : ∀ c ∈ row, isLineEnd c = false) :
    lines row = if row.all isBlank then [] else [trim row] := by
  rw [lines, List.splitOnP_eq_singleton h, List.map_singleton]
  simp only [← trim_eq_nil_iff]
  split
  · next hnil => simp [hnil]
  · next hne => simp [hne]

private theorem lines_cons_lineEnd {c : Char} (hc : isLineEnd c) (rest : List Char) :
    lines (c :: rest) = lines rest :=
  lines_append_cons [] rest hc

/-- The texts that end a line: a line feed, a carriage return, or both. -/
def lineEnds : List String := ["\n", "\r", "\r\n"]

theorem lines_append_lineEnd (first second : List Char) {separator : String}
    (h : separator ∈ lineEnds) :
    lines (first ++ separator.toList ++ second) = lines first ++ lines second := by
  have hfeed : isLineEnd '\n' := by decide
  have hreturn : isLineEnd '\r' := by decide
  rw [List.append_assoc]
  simp only [lineEnds, List.mem_cons, List.not_mem_nil, or_false] at h
  rcases h with rfl | rfl | rfl
  · exact lines_append_cons first second hfeed
  · exact lines_append_cons first second hreturn
  · refine (lines_append_cons first ('\n' :: second) hreturn).trans ?_
    rw [lines_cons_lineEnd hfeed]

end Text

namespace Rule

private theorem readLine_trim (text : List Char) : readLine (Text.trim text) = readLine text := by
  rw [readLine, readLine, Text.trim_trim]

private theorem readLines_append_lineEnd (first second : String) {separator : String}
    (h : separator ∈ Text.lineEnds) :
    readLines (first ++ separator ++ second) = readLines first ++ readLines second := by
  rw [readLines, String.toList_append, String.toList_append, Text.lines_append_lineEnd _ _ h,
    List.map_append]
  rfl

private theorem parseAll_append_lineEnd (first second : String) {separator : String}
    (h : separator ∈ Text.lineEnds) :
    parseAll (first ++ separator ++ second) =
      ((parseAll first).1 ++ (parseAll second).1, (parseAll first).2 ++ (parseAll second).2) := by
  rw [parseAll, readLines_append_lineEnd first second h]
  simp only [List.filterMap_append]
  rfl

private theorem parseAll_row {row : String} (h : ∀ c ∈ row.toList, Text.isLineEnd c = false) :
    parseAll row =
      if row.toList.all Text.isBlank then ([], [])
      else match parse row with
        | .ok rule => ([rule], [])
        | .error e => ([], [e]) := by
  rw [parseAll, readLines, Text.lines_row h]
  split
  · rfl
  · rw [List.map_singleton, readLine_trim, parse]
    cases houtcome : (readLine row.toList).outcome <;>
      simp [LineReading.rule?, LineReading.error?, houtcome, Except.toOption]

private theorem parseAll_rows (first : String) (rest : List (String × String))
    (h : ∀ row ∈ rest, row.1 ∈ Text.lineEnds) :
    parseAll (first ++ String.join (rest.map fun row => row.1 ++ row.2)) =
      ((first :: rest.map Prod.snd).flatMap fun row => (parseAll row).1,
        (first :: rest.map Prod.snd).flatMap fun row => (parseAll row).2) := by
  induction rest generalizing first with
  | nil => simp
  | cons row rest ih =>
    obtain ⟨separator, second⟩ := row
    have hseparator : separator ∈ Text.lineEnds := h _ List.mem_cons_self
    have htext : first ++ String.join (((separator, second) :: rest).map fun row => row.1 ++ row.2) =
        first ++ separator ++ (second ++ String.join (rest.map fun row => row.1 ++ row.2)) := by
      simp [String.join_cons, String.append_assoc]
    rw [htext, parseAll_append_lineEnd _ _ hseparator,
      ih second fun row hrow => h row (List.mem_cons_of_mem _ hrow)]
    simp only [List.map_cons, List.flatMap_cons]

/-- Reading a text is reading its rows one after the other, whatever ends them, and a row by itself
gives nothing if it is blank, and else the one rule or the one error that the row is read as. -/
theorem parseAll_line_by_line :
    (∀ first second separator : String, separator ∈ Text.lineEnds →
      parseAll (first ++ separator ++ second) =
        ((parseAll first).1 ++ (parseAll second).1, (parseAll first).2 ++ (parseAll second).2)) ∧
    (∀ row : String, (∀ c ∈ row.toList, c ≠ '\n' ∧ c ≠ '\r') →
      parseAll row =
        if row.toList.all Text.isBlank then ([], [])
        else match parse row with
          | .ok rule => ([rule], [])
          | .error e => ([], [e])) ∧
    ∀ (first : String) (rest : List (String × String)), (∀ row ∈ rest, row.1 ∈ Text.lineEnds) →
      parseAll (first ++ String.join (rest.map fun row => row.1 ++ row.2)) =
        ((first :: rest.map Prod.snd).flatMap fun row => (parseAll row).1,
          (first :: rest.map Prod.snd).flatMap fun row => (parseAll row).2) := by
  refine ⟨?_, ?_, ?_⟩
  · intro first second separator h
    exact parseAll_append_lineEnd first second h
  · intro row h
    refine parseAll_row fun c hc => ?_
    simp [Text.isLineEnd, h c hc]
  · intro first rest h
    exact parseAll_rows first rest h

/-- A blank row and a row that is no rule, with both characters of a line end between them. -/
theorem parseAll_blank_then_bob :
    "\r\n" ∈ Text.lineEnds ∧ parseAll ("\u00a0" ++ "\r\n" ++ " Bob\t") =
      ([], [⟨"Bob", .tooFewTokens⟩]) := by
  have hend : "\r\n" ∈ Text.lineEnds := by decide
  obtain ⟨happend, hrow, -⟩ := parseAll_line_by_line
  refine ⟨hend, ?_⟩
  rw [happend _ _ _ hend, hrow "\u00a0" (by simp), hrow " Bob\t" (by simp)]
  decide

end Rule

end DayRoster
