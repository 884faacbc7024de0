import DayRoster.Proofs.CanonicalText

/-!
Texts that are no roster. A single line that is no rule refuses the whole text, and what is reported
is every such line, in order, with the first cause that applies to its tokens. A reported line can
be read by itself: it gives the reported error again.
-/

set_option autoImplicit false

namespace DayRoster

/-- The lists of tokens that a fault stands for. The causes apply in the order in which they are
listed, so that each excludes the ones before it. -/
inductive LineFault.Blames : LineFault → List String → Prop
  | tooFewTokens {tokens : List String} (h : tokens.length < 4) : Blames .tooFewTokens tokens
  | tooManyTokens {tokens : List String} (h : 5 < tokens.length) : Blames .tooManyTokens tokens
  | unknownEffect {name word first last : String} {rest : List String} (hrest : rest.length ≤ 1)
      (hword : ∀ effect : Effect, word ≠ effect.keyword) :
      Blames (.unknownEffect word) (name :: word :: first :: last :: rest)
  | invalidStart {name first last : String} {rest : List String} {effect : Effect}
      {cause : DateError} (hrest : rest.length ≤ 1) (hfirst : Date.parse first = .error cause) :
      Blames (.invalidStart first) (name :: effect.keyword :: first :: last :: rest)
  | invalidStop {name first last : String} {rest : List String} {effect : Effect} {start : Date}
      {cause : DateError} (hrest : rest.length ≤ 1) (hfirst : Date.parse first = .ok start)
      (hlast : Date.parse last = .error cause) :
      Blames (.invalidStop last) (name :: effect.keyword :: first :: last :: rest)

/-- A token that is at fault stands in its place: an effect in the second one, and the dates in the
third and the fourth one. -/
def LineFault.PointsInto (tokens : List String) : LineFault → Prop
  | tooFewTokens | tooManyTokens => True
  | unknownEffect found => tokens[1]? = some found
  | invalidStart found => tokens[2]? = some found
  | invalidStop found => tokens[3]? = some found

theorem LineFault.Blames.pointsInto {fault : LineFault} {tokens : List String}
    (h : fault.Blames tokens) : fault.PointsInto tokens := by
  cases h with
  | tooFewTokens | tooManyTokens => trivial
  | unknownEffect | invalidStart | invalidStop => rfl

namespace Rule

theorem blames_of_run_readTokens {tokens : List String} {fault : LineFault} {warned : Bool}
    (h : ((readTokens tokens).run.run warned).1 = .error fault) : fault.Blames tokens := by
  match tokens with
  | [] | [_] | [_, _] | [_, _, _] =>
    obtain rfl : LineFault.tooFewTokens = fault := Except.error.inj h
    exact .tooFewTokens (by simp)
  | name :: word :: first :: last :: rest =>
    rw [run_readTokens] at h
    split at h
    · next hrest =>
      obtain rfl := Except.error.inj h
      refine .tooManyTokens ?_
      rw [List.length_cons, List.length_cons, List.length_cons, List.length_cons]
      omega
    next hrest =>
    have hshort : rest.length ≤ 1 := Nat.le_of_not_lt hrest
    split at h
    · next hnone =>
      obtain rfl := Except.error.inj h
      refine .unknownEffect hshort fun effect hword => ?_
      rw [Effect.ofKeyword?_eq_some_iff.mpr hword] at hnone
      exact nomatch hnone
    next effect heffect =>
    obtain rfl := Effect.ofKeyword?_eq_some_iff.mp heffect
    split at h
    · next hfirst =>
      obtain rfl := Except.error.inj h
      exact .invalidStart hshort hfirst
    next hfirst =>
    split at h
    · next hlast =>
      obtain rfl := Except.error.inj h
      exact .invalidStop hshort hfirst hlast
    · exact nomatch h

theorem of_readLine_eq_error {text : List Char} {e : LineError}
    (h : (readLine text).outcome = .error e) :
    e.line.toList = Text.trim text ∧ e.fault.Blames (tokensOf text) := by
  change Except.mapError (fun fault => (⟨String.ofList (Text.trim text), fault⟩ : LineError))
    ((readTokens (tokensOf text)).run.run false).1 = .error e at h
  cases hrun : ((readTokens (tokensOf text)).run.run false).1 with
  | ok rule =>
    rw [hrun] at h
    exact nomatch h
  | error fault =>
    rw [hrun] at h
    obtain rfl := Except.error.inj h
    exact ⟨String.toList_ofList, blames_of_run_readTokens hrun⟩

theorem parse_ofList (line : List Char) :
    Rule.parse (String.ofList line) = (readLine line).outcome := by
  rw [parse, String.toList_ofList]

end Rule

def Text.rows (text : String) : List String := (lines text.toList).map String.ofList

theorem Text.mem_rows {text row : String} (h : row ∈ rows text) :
    row ≠ "" ∧ trim row.toList = row.toList ∧ ∀ c ∈ row.toList, isLineEnd c = false := by
  obtain ⟨line, hline, rfl⟩ := List.mem_map.mp h
  rw [String.toList_ofList]
  refine ⟨?_, (mem_lines hline).2⟩
  simpa using (mem_lines hline).1

namespace Rule

theorem map_outcome_readLines (text : String) :
    (readLines text).map LineReading.outcome = (Text.rows text).map Rule.parse := by
  rw [readLines, Text.rows, List.map_map, List.map_map]
  exact List.map_congr_left fun line _ => (parse_ofList line).symm

theorem error?_eq_some_iff {reading : LineReading} {e : LineError} :
    reading.error? = some e ↔ reading.outcome = .error e := by
  rcases reading with ⟨e' | rule, outdated⟩ <;> simp [LineReading.error?]

private theorem map_line_filterMap_error? {lines : List (List Char)}
    (h : ∀ line ∈ lines, Text.trim line = line) :
    ((lines.map readLine).filterMap LineReading.error?).map LineError.line =
      (lines.map String.ofList).filter fun line => !(Rule.parse line).isOk := by
  induction lines with
  | nil => rfl
  | cons line rest ih =>
    have hrest := ih fun other hother => h other (List.mem_cons_of_mem line hother)
    rw [List.map_cons, List.map_cons]
    cases houtcome : (readLine line).outcome with
    | ok rule =>
      have hnone : (readLine line).error? = none := by simp [LineReading.error?, houtcome]
      rw [List.filterMap_cons_none hnone, List.filter_cons_of_neg, hrest]
      simp [parse_ofList, houtcome, Except.isOk, Except.toBool]
    | error e =>
      have hline : e.line = String.ofList line := by
        have htrim := (of_readLine_eq_error houtcome).1
        rw [h line List.mem_cons_self] at htrim
        rw [← htrim, String.ofList_toList]
      rw [List.filterMap_cons_some (error?_eq_some_iff.mpr houtcome), List.map_cons, hrest, hline,
        List.filter_cons_of_pos]
      simp [parse_ofList, houtcome, Except.isOk, Except.toBool]

end Rule

namespace Roster

variable {text : String} {errors : List LineError}

theorem parse_eq_error_iff :
    Roster.parse text = .error errors ↔
      errors ≠ [] ∧ (Rule.readLines text).filterMap Rule.LineReading.error? = errors := by
  unfold Roster.parse Rule.parseAll
  dsimp only
  cases (Rule.readLines text).filterMap Rule.LineReading.error? with
  | nil => simp +contextual [eq_comm]
  | cons fault faults => simp +contextual [eq_comm]

theorem exists_parse_eq_ok_iff :
    (∃ roster, Roster.parse text = .ok roster) ↔
      ∀ row ∈ Text.rows text, ∃ rule, Rule.parse row = .ok rule := by
  simp only [parse_eq_ok_iff, Rule.map_outcome_readLines]
  constructor
  · rintro ⟨roster, hrows⟩ row hrow
    have hmem : Rule.parse row ∈ roster.rules.map Except.ok := by
      rw [← hrows]
      exact List.mem_map_of_mem hrow
    obtain ⟨rule, -, hrule⟩ := List.mem_map.mp hmem
    exact ⟨rule, hrule.symm⟩
  · intro hrows
    generalize Text.rows text = rows at hrows
    induction rows with
    | nil => exact ⟨⟨[]⟩, rfl⟩
    | cons row rest ih =>
      obtain ⟨rule, hrule⟩ := hrows row List.mem_cons_self
      have hrest := fun other hother => hrows other (List.mem_cons_of_mem row hother)
      obtain ⟨⟨rules⟩, hrules⟩ := ih hrest
      refine ⟨⟨rule :: rules⟩, ?_⟩
      rw [List.map_cons, List.map_cons, hrule, hrules]

theorem of_mem_errors (h : Roster.parse text = .error errors) {e : LineError}
    (he : e ∈ errors) : e.line ∈ Text.rows text ∧ Rule.parse e.line = .error e := by
  obtain ⟨-, rfl⟩ := parse_eq_error_iff.mp h
  obtain ⟨reading, hreading, herror⟩ := List.mem_filterMap.mp he
  obtain ⟨line, hline, rfl⟩ := List.mem_map.mp hreading
  have houtcome := Rule.error?_eq_some_iff.mp herror
  have hrow : e.line = String.ofList line := by
    have htrim := (Rule.of_readLine_eq_error houtcome).1
    rw [(Text.mem_lines hline).2.1] at htrim
    rw [← htrim, String.ofList_toList]
  rw [hrow, Rule.parse_ofList]
  exact ⟨List.mem_map_of_mem hline, houtcome⟩

theorem map_line_errors (h : Roster.parse text = .error errors) :
    errors.map LineError.line =
      (Text.rows text).filter fun row => !(Rule.parse row).isOk := by
  obtain ⟨-, rfl⟩ := parse_eq_error_iff.mp h
  exact Rule.map_line_filterMap_error? fun line hline => (Text.mem_lines hline).2.1

/-- A text is a roster exactly if each of its lines is a rule, and the roster then has these rules.
Any other text is refused with an error for each line that is none. Such a line is trimmed and not
empty, gives the same error again when it is read by itself, and has the token that is at fault. -/
theorem parse_all_or_nothing (text : String) :
    ((∃ roster, Roster.parse text = .ok roster) ↔
      ∀ row ∈ Text.rows text, ∃ rule, Rule.parse row = .ok rule) ∧
    (∀ roster, Roster.parse text = .ok roster →
      roster.rules.map Except.ok = (Text.rows text).map Rule.parse) ∧
    ∀ errors, Roster.parse text = .error errors →
      errors ≠ [] ∧
      errors.map LineError.line = (Text.rows text).filter (fun row => !(Rule.parse row).isOk) ∧
      ∀ e ∈ errors,
        e.line ≠ "" ∧ (∀ c ∈ e.line.toList, c ≠ '\n' ∧ c ≠ '\r') ∧
        (∀ c ∈ e.line.toList.head?, ¬ Text.isBlank c) ∧
        (∀ c ∈ e.line.toList.getLast?, ¬ Text.isBlank c) ∧
        Rule.parse e.line = .error e ∧
        e.fault.PointsInto ((Text.tokens e.line.toList).map String.ofList) := by
  refine ⟨exists_parse_eq_ok_iff, fun roster h => ?_, fun errors h => ?_⟩
  · rw [← Rule.map_outcome_readLines, parse_eq_ok_iff.mp h]
  refine ⟨(parse_eq_error_iff.mp h).1, map_line_errors h, fun e he => ?_⟩
  obtain ⟨hrow, hparse⟩ := of_mem_errors h he
  obtain ⟨hne, htrim, hends⟩ := Text.mem_rows hrow
  obtain ⟨-, hblames⟩ := Rule.of_readLine_eq_error hparse
  rw [Rule.tokensOf, htrim] at hblames
  refine ⟨hne, fun c hc => ?_, fun c hc => ?_, fun c hc => ?_, hparse, hblames.pointsInto⟩
  · simpa [Text.isLineEnd] using hends c hc
  · rw [← htrim] at hc
    simp [Text.not_blank_of_mem_head?_trim hc]
  · rw [← htrim] at hc
    simp [Text.not_blank_of_mem_getLast?_trim hc]

/-- A rule between two lines that are none: the first has no effect, and the second one only has a
name between blanks. -/
theorem parse_keep_and_bob :
    let text := "Ann keep 2020 2021\nAnn include 2020 2021\r\n\u00a0Bob \n"
    ∃ errors, Roster.parse text = .error errors ∧
      errors.map LineError.line = ["Ann keep 2020 2021", "Bob"] ∧
      ∀ e ∈ errors, Rule.parse e.line = .error e ∧
        e.fault.PointsInto ((Text.tokens e.line.toList).map String.ofList) := by
  intro text
  have hread : Roster.parse text =
      .error [⟨"Ann keep 2020 2021", .unknownEffect "keep"⟩, ⟨"Bob", .tooFewTokens⟩] := by
    decide +kernel
  obtain ⟨-, -, herrors⟩ := parse_all_or_nothing text
  obtain ⟨-, -, hlines⟩ := herrors _ hread
  refine ⟨_, hread, rfl, fun e he => ?_⟩
  obtain ⟨-, -, -, -, hparse, htoken⟩ := hlines e he
  exact ⟨hparse, htoken⟩

end Roster

end DayRoster
