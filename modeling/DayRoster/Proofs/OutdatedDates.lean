import DayRoster.Journal
import DayRoster.Proofs.LineTokens
import DayRoster.Proofs.OrderedChoice

/-!
The warning of outdated dates. Reading a line comes to an outdated date if the number of its tokens
and its effect are those of a rule and the first day has an outdated form, or the last day has one
and the first day exists. The first such line of a text puts the warning on record, before its own
error and after those of the lines before it, and no later line does.
-/

set_option autoImplicit false

namespace DayRoster

namespace Spelling

/-- A text that is written in an outdated form, and in no form of ISO 8601. -/
structure OnlyOutdated (text : String) : Prop where
  exists_outdated : ∃ year month day, (outdated year month day).Written text.toList
  not_iso : ∀ name time, ¬ (iso name time).Written text.toList

/-- The forms of ISO 8601 are tried first, so only the other texts are read as outdated. -/
theorem any_isOutdated_iff {text : String} :
    (read? text).any isOutdated ↔ OnlyOutdated text := by
  rw [Option.any_eq_true]
  constructor
  · rintro ⟨found, hfound, houtdated⟩
    cases found with
    | iso name time => exact nomatch houtdated
    | outdated year month day =>
      refine ⟨⟨year, month, day, written_of_read? hfound⟩, fun name time hiso => ?_⟩
      exact nomatch hfound.symm.trans (read?_iso_of_written hiso)
  · rintro ⟨⟨year, month, day, houtdated⟩, hnone⟩
    obtain ⟨found, hfound, -⟩ := read?_of_written houtdated
    cases found with
    | iso name time => exact absurd (written_of_read? hfound) (hnone name time)
    | outdated year month day => exact ⟨_, hfound, rfl⟩

end Spelling

theorem Effect.exists_keyword_eq_iff {word : String} :
    (∃ effect : Effect, word = effect.keyword) ↔ word = "include" ∨ word = "exclude" := by
  constructor
  · rintro ⟨_ | _, rfl⟩
    · exact .inl rfl
    · exact .inr rfl
  · rintro (rfl | rfl)
    · exact ⟨.inclusion, rfl⟩
    · exact ⟨.exclusion, rfl⟩

namespace Rule

open Spelling (OnlyOutdated)

/-- Reading a row comes to an outdated date. The row has the number of tokens and the effect of a
rule, and its first day is such a date, or its last day is one and its first day exists. -/
def MeetsOutdated (row : String) : Prop :=
  ∃ tokens, Tokenizes row tokens ∧ (tokens.length = 4 ∨ tokens.length = 5) ∧
    (tokens[1]? = some "include" ∨ tokens[1]? = some "exclude") ∧
    ((∃ first, tokens[2]? = some first ∧ OnlyOutdated first) ∨
      ∃ first start last, tokens[2]? = some first ∧ Date.parse first = .ok start ∧
        tokens[3]? = some last ∧ OnlyOutdated last)

theorem outdated_run_readTokens_iff {name word first last : String} {rest : List String} :
    ((readTokens (name :: word :: first :: last :: rest)).run.run false).2 = true ↔
      rest.length ≤ 1 ∧ (word = "include" ∨ word = "exclude") ∧
        (OnlyOutdated first ∨ ∃ start, Date.parse first = .ok start ∧ OnlyOutdated last) := by
  rw [run_readTokens_cons, ← Effect.exists_keyword_eq_iff]
  simp only [← Spelling.any_isOutdated_iff, ← Effect.ofKeyword?_eq_some_iff]
  by_cases hrest : 1 < rest.length
  · simp [hrest, Nat.not_le.mpr hrest]
  · rw [if_neg hrest]
    cases Effect.ofKeyword? word with
    | none => simp
    | some effect =>
      cases Date.parse first with
      | error e => simp [Nat.le_of_not_lt hrest]
      | ok start => cases Date.parse last <;> simp [Nat.le_of_not_lt hrest]

def readRow (row : String) : LineReading := readLine row.toList

theorem outdated_readLine (text : List Char) :
    (readLine text).outdated = ((readTokens (tokensOf text)).run.run false).2 :=
  rfl

theorem outdated_readRow_iff {row : String} :
    (readRow row).outdated = true ↔ MeetsOutdated row := by
  rw [readRow, outdated_readLine]
  simp only [MeetsOutdated, tokenizes_iff, exists_eq_left]
  match tokensOf row.toList with
  | [] | [_] | [_, _] | [_, _, _] => simp [readTokens]
  | name :: word :: first :: last :: rest =>
    rw [outdated_run_readTokens_iff]
    have hlength : (name :: word :: first :: last :: rest).length = rest.length + 4 := rfl
    have hcount : rest.length ≤ 1 ↔ rest.length + 4 = 4 ∨ rest.length + 4 = 5 := by omega
    rw [hlength, hcount]
    simp

end Rule

namespace Journal

open Rule (LineReading MeetsOutdated)

variable {warned : Bool} {readings before after : List LineReading} {reading : LineReading}

theorem count_onOutdated (reading : LineReading) (warned : Bool) :
    (onOutdated reading warned).count .outdatedDate = (!warned && reading.outdated).toNat := by
  cases h : reading.outdated <;> cases warned <;> simp [onOutdated, h]

theorem count_onRejected (reading : LineReading) :
    (onRejected reading).count .outdatedDate = 0 := by
  cases h : reading.error? <;> simp [onRejected, h]

theorem count_ofReadings (warned : Bool) (readings : List LineReading) :
    (ofReadings warned readings).count .outdatedDate =
      (!warned && readings.any LineReading.outdated).toNat := by
  induction readings generalizing warned with
  | nil => cases warned <;> rfl
  | cons reading rest ih =>
    rw [ofReadings, List.count_append, List.count_append, count_onOutdated, count_onRejected, ih,
      List.any_cons]
    cases warned <;> cases reading.outdated <;> simp

theorem ofReadings_append (warned : Bool) (before after : List LineReading) :
    ofReadings warned (before ++ after) =
      ofReadings warned before ++
        ofReadings (warned || before.any LineReading.outdated) after := by
  induction before generalizing warned with
  | nil => simp [ofReadings]
  | cons reading rest ih =>
    rw [List.cons_append, ofReadings, ofReadings, ih, List.any_cons, Bool.or_assoc]
    simp only [List.append_assoc]

theorem ofReadings_of_not_due
    (h : ∀ reading ∈ readings, warned = true ∨ reading.outdated = false) :
    ofReadings warned readings = readings.flatMap onRejected := by
  induction readings with
  | nil => rfl
  | cons reading rest ih =>
    have hrest := ih fun other hother => h other (List.mem_cons_of_mem _ hother)
    rw [List.flatMap_cons, ← hrest, ofReadings]
    rcases h reading List.mem_cons_self with hwarned | hplain
    · simp [onOutdated, hwarned]
    · simp [onOutdated, hplain]

/-- The first line that is due puts the warning between the records of the lines before it and the
record of its own error. -/
theorem ofReadings_first_due (hbefore : ∀ earlier ∈ before, earlier.outdated = false)
    (h : reading.outdated = true) :
    ofReadings false (before ++ reading :: after) =
      before.flatMap onRejected ++ .outdatedDate :: (reading :: after).flatMap onRejected := by
  have hfirst : ofReadings false before = before.flatMap onRejected :=
    ofReadings_of_not_due fun earlier hearlier => .inr (hbefore earlier hearlier)
  have hnone : before.any LineReading.outdated = false := by simpa using hbefore
  have hwarning : onOutdated reading false = [.outdatedDate] := by simp [onOutdated, h]
  have hrest : ofReadings true after = after.flatMap onRejected :=
    ofReadings_of_not_due fun _ _ => .inl rfl
  rw [ofReadings_append, hfirst, hnone, Bool.or_false, ofReadings, hwarning, h, Bool.or_true, hrest]
  rfl

/-- The records of the rows that are no rules, in order. -/
def ofRefusedRows (rows : List String) : List Event :=
  rows.flatMap fun row =>
    match Rule.parse row with
    | .ok _ => []
    | .error e => [.rejectedLine e.fault]

def ofRefusedText (text : String) : List Event :=
  let (rules, errors) := Rule.parseAll text
  if errors.isEmpty then [] else [.rejectedText rules.length errors.length]

theorem readLines_eq_map_rows (text : String) :
    Rule.readLines text = (Text.rows text).map Rule.readRow := by
  rw [Rule.readLines, Text.rows, List.map_map]
  refine List.map_congr_left fun line _ => ?_
  rw [Function.comp_apply, Rule.readRow, String.toList_ofList]

theorem flatMap_onRejected (rows : List String) :
    (rows.map Rule.readRow).flatMap onRejected = ofRefusedRows rows := by
  rw [List.flatMap_map, ofRefusedRows]
  refine List.flatMap_congr fun row _ => ?_
  have hparse : Rule.parse row = (Rule.readRow row).outcome := rfl
  rw [onRejected, LineReading.error?, hparse]
  cases (Rule.readRow row).outcome <;> rfl

theorem ofText_eq (text : String) :
    ofText text = ofReadings false ((Text.rows text).map Rule.readRow) ++ ofRefusedText text := by
  rw [← readLines_eq_map_rows]
  rfl

theorem count_ofRefusedText (text : String) :
    (ofRefusedText text).count .outdatedDate = 0 := by
  rw [ofRefusedText]
  dsimp only
  split <;> simp

theorem count_ofText (text : String) :
    (ofText text).count .outdatedDate =
      ((Text.rows text).any fun row => (Rule.readRow row).outdated).toNat := by
  rw [ofText_eq, List.count_append, count_ofReadings, count_ofRefusedText, List.any_map]
  rfl

theorem ofText_first_due {text row : String} {before after : List String}
    (hrows : Text.rows text = before ++ row :: after)
    (hbefore : ∀ earlier ∈ before, ¬ MeetsOutdated earlier) (hrow : MeetsOutdated row) :
    ofText text = ofRefusedRows before ++ .outdatedDate ::
      (ofRefusedRows (row :: after) ++ ofRefusedText text) := by
  have hplain : ∀ earlier ∈ before.map Rule.readRow, earlier.outdated = false := by
    intro earlier hearlier
    obtain ⟨line, hline, rfl⟩ := List.mem_map.mp hearlier
    exact Bool.eq_false_iff.mpr (mt Rule.outdated_readRow_iff.mp (hbefore line hline))
  have hrest := flatMap_onRejected (row :: after)
  rw [List.map_cons] at hrest
  rw [ofText_eq, hrows, List.map_append, List.map_cons,
    ofReadings_first_due hplain (Rule.outdated_readRow_iff.mpr hrow), flatMap_onRejected, hrest,
    List.append_assoc, List.cons_append]

/-- The warning of outdated dates is put on record at most once, and it is if reading some row of
the text comes to an outdated date. The first such row puts it behind the errors of all rows before
it and in front of its own error. -/
theorem warning_once_when_due (text : String) {filter : Filter}
    (h : filter.shows .outdatedDate) :
    let log := (ofText text).filter filter.shows
    log.count .outdatedDate ≤ 1 ∧
      (.outdatedDate ∈ log ↔ ∃ row ∈ Text.rows text, MeetsOutdated row) ∧
      ∀ before row after, Text.rows text = before ++ row :: after →
        (∀ earlier ∈ before, ¬ MeetsOutdated earlier) → MeetsOutdated row →
        log = (ofRefusedRows before).filter filter.shows ++ .outdatedDate ::
          (ofRefusedRows (row :: after) ++ ofRefusedText text).filter filter.shows := by
  intro log
  have hcount : log.count .outdatedDate =
      ((Text.rows text).any fun row => (Rule.readRow row).outdated).toNat :=
    (List.count_filter h).trans (count_ofText text)
  refine ⟨?_, ?_, fun before row after hrows hbefore hrow => ?_⟩
  · rw [hcount]
    exact Bool.toNat_le _
  · rw [← List.count_pos_iff, hcount]
    simp only [← Rule.outdated_readRow_iff, ← List.any_eq_true]
    cases (Text.rows text).any fun row => (Rule.readRow row).outdated <;> simp
  · change (ofText text).filter filter.shows = _
    rw [ofText_first_due hrows hbefore hrow, List.filter_append, List.filter_cons_of_pos h]

/-- The second row has an outdated date and no last day, and the third has one as well. -/
theorem warning_at_second_row :
    let text := "Bob\nAnn include 1/2/2020 2020-02-30\r\nCy exclude 2020 2020/1/1"
    let filter : Filter := { threshold := some .debugging }
    filter.shows .outdatedDate ∧
      MeetsOutdated "Ann include 1/2/2020 2020-02-30" ∧
      (ofText text).filter filter.shows =
        [.rejectedLine .tooFewTokens, .outdatedDate, .rejectedLine (.invalidStop "2020-02-30"),
          .rejectedText 1 2] := by
  intro text filter
  have hshows : filter.shows .outdatedDate := by decide
  have hrows : Text.rows text = ["Bob"] ++ "Ann include 1/2/2020 2020-02-30" ::
      ["Cy exclude 2020 2020/1/1"] := by decide +kernel
  have hbob : ∀ earlier ∈ ["Bob"], ¬ MeetsOutdated earlier := by
    simp only [List.forall_mem_singleton, ← Rule.outdated_readRow_iff]
    decide +kernel
  have hann : MeetsOutdated "Ann include 1/2/2020 2020-02-30" :=
    Rule.outdated_readRow_iff.mp (by decide +kernel)
  obtain ⟨-, -, hlog⟩ := warning_once_when_due text hshows
  refine ⟨hshows, hann, (hlog _ _ _ hrows hbob hann).trans ?_⟩
  decide +kernel

end Journal

end DayRoster
