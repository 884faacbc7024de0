import DayRoster.Agenda
import DayRoster.Proofs.LineText
import DayRoster.Proofs.MaskCodec
import DayRoster.Proofs.RuleLine

/-!
The canonical text of a roster and what it is read back as. The words of a rule are the tokens of
its text if the name of the rule is plain, and they write the rule if its years are plain. All names
that the reader yields are plain. So the canonical text of a roster is read as that roster exactly
if every rule has a plain name and plain years; for a roster that was read, the years up to 9999
suffice.
-/

set_option autoImplicit false

namespace DayRoster

theorem Date.not_blank_of_mem_text {d : Date} {c : Char} (h : c ∈ d.text.toList) :
    Text.isBlank c = false := by
  have hpadded : ∀ width n, c ∈ Decimal.padded width n → Text.isBlank c = false :=
    fun _ _ hc => Text.not_blank_of_isDigit (Decimal.isDigit_of_mem_padded hc)
  have hyear : c ∈ yearDigits d.year → Text.isBlank c = false := by
    intro hc
    rw [yearDigits] at hc
    split at hc
    · exact hpadded _ _ hc
    · rcases List.mem_cons.mp hc with rfl | hc
      · split <;> decide
      · exact hpadded _ _ hc
  simp only [text, String.toList_ofList, List.mem_append, List.mem_cons] at h
  rcases h with (hc | rfl | hc) | rfl | hc
  · exact hyear hc
  · decide
  · exact hpadded _ _ hc
  · decide
  · exact hpadded _ _ hc

private theorem Date.text_ne_empty (d : Date) : d.text.toList ≠ [] := by
  simp [text]

theorem WeekPattern.not_blank_of_mem_mask {s : WeekPattern} {c : Char} (h : c ∈ s.mask) :
    Text.isBlank c = false := by
  rcases mem_mask h with rfl | rfl <;> decide

theorem Effect.not_blank_of_mem_keyword {effect : Effect} {c : Char}
    (h : c ∈ effect.keyword.toList) : Text.isBlank c = false := by
  have hall : effect.keyword.toList.all (!Text.isBlank ·) = true := by
    cases effect <;> decide
  exact (Bool.not_eq_true' _).mp (List.all_eq_true.mp hall c h)

namespace Rule

/-- The words of the canonical text of a rule that follow the name. -/
def laterWords (rule : Rule) : List String :=
  [rule.effect.keyword, rule.start.text, rule.stop.text] ++
    if rule.weekdays.isEmpty then [] else [rule.weekdays.text]

def words (rule : Rule) : List String := rule.name :: rule.laterWords

theorem text_eq_intercalate (rule : Rule) : rule.text = " ".intercalate rule.words := by
  by_cases h : rule.weekdays.isEmpty <;> simp [text, words, laterWords, h, String.append_assoc]

theorem not_blank_of_mem_laterWords {rule : Rule} {word : String} (h : word ∈ rule.laterWords) :
    word.toList ≠ [] ∧ ∀ c ∈ word.toList, Text.isBlank c = false := by
  have hmask : rule.weekdays.text.toList = rule.weekdays.mask := String.toList_ofList
  have hword : word = rule.effect.keyword ∨ word = rule.start.text ∨ word = rule.stop.text ∨
      word = rule.weekdays.text := by
    by_cases hempty : rule.weekdays.isEmpty <;> simp [laterWords, hempty] at h <;> grind
  rcases hword with rfl | rfl | rfl | rfl
  · exact ⟨by cases rule.effect <;> decide, fun _ => Effect.not_blank_of_mem_keyword⟩
  · exact ⟨Date.text_ne_empty _, fun _ => Date.not_blank_of_mem_text⟩
  · exact ⟨Date.text_ne_empty _, fun _ => Date.not_blank_of_mem_text⟩
  · rw [hmask]
    exact ⟨WeekPattern.mask_ne_nil _, fun _ => WeekPattern.not_blank_of_mem_mask⟩

private theorem exists_text_eq_append (rule : Rule) :
    ∃ front, ∃ word ∈ rule.laterWords, rule.text.toList = front ++ word.toList := by
  by_cases h : rule.weekdays.isEmpty
  · refine ⟨(rule.name ++ " " ++ rule.effect.keyword ++ " " ++ rule.start.text ++ " ").toList,
      rule.stop.text, by simp [laterWords], ?_⟩
    simp [text, h]
  · refine ⟨(rule.name ++ " " ++ rule.effect.keyword ++ " " ++ rule.start.text ++ " " ++
      rule.stop.text ++ " ").toList, rule.weekdays.text, by simp [laterWords, h], ?_⟩
    simp [text, h]

/-- The names that a token at the beginning of a trimmed line can be. -/
structure HasPlainName (rule : Rule) : Prop where
  name_ne_empty : rule.name ≠ ""
  not_separator : ∀ c ∈ rule.name.toList, c ≠ ' ' ∧ c ≠ '\t' ∧ c ≠ '\n' ∧ c ≠ '\r'
  not_blank_head : ∀ c ∈ rule.name.toList.head?, Text.isBlank c = false

variable {rule : Rule}

private theorem HasPlainName.toList_ne_nil (h : rule.HasPlainName) : rule.name.toList ≠ [] := by
  simpa using h.name_ne_empty

private theorem HasPlainName.not_gap (h : rule.HasPlainName) {c : Char}
    (hc : c ∈ rule.name.toList) : Text.isGap c = false := by
  have := h.not_separator c hc
  simp [Text.isGap, this]

private theorem HasPlainName.not_lineEnd (h : rule.HasPlainName) {c : Char}
    (hc : c ∈ rule.name.toList) : Text.isLineEnd c = false := by
  have := h.not_separator c hc
  simp [Text.isLineEnd, this]

theorem HasPlainName.trim_text (h : rule.HasPlainName) :
    Text.trim rule.text.toList = rule.text.toList := by
  apply Text.trim_eq_self
  · obtain ⟨first, rest, hname⟩ := List.exists_cons_of_ne_nil h.toList_ne_nil
    intro c hc
    apply h.not_blank_head c
    rw [hname]
    simpa [text, hname] using hc
  · obtain ⟨front, word, hword, htext⟩ := rule.exists_text_eq_append
    obtain ⟨hne, hblank⟩ := not_blank_of_mem_laterWords hword
    intro c hc
    rw [htext, List.getLast?_append_of_ne_nil _ hne] at hc
    exact hblank c (List.mem_of_mem_getLast? hc)

theorem HasPlainName.tokensOf_text (h : rule.HasPlainName) :
    tokensOf rule.text.toList = rule.words := by
  have hwords : ∀ word ∈ rule.words.map String.toList,
      word ≠ [] ∧ ∀ c ∈ word, Text.isGap c = false := by
    intro word hword
    rw [words, List.map_cons, List.mem_cons] at hword
    rcases hword with rfl | hword
    · exact ⟨h.toList_ne_nil, fun _ => h.not_gap⟩
    · obtain ⟨later, hlater, rfl⟩ := List.mem_map.mp hword
      obtain ⟨hne, hblank⟩ := not_blank_of_mem_laterWords hlater
      exact ⟨hne, fun c hc => Text.not_gap_of_not_blank (hblank c hc)⟩
  rw [tokensOf, h.trim_text, text_eq_intercalate, String.toList_intercalate]
  rw [show " ".toList = [' '] from rfl, Text.tokens_intercalate hwords, List.map_map]
  simp [Function.comp_def]

theorem HasPlainName.not_lineEnd_of_mem_text (h : rule.HasPlainName) {c : Char}
    (hc : c ∈ rule.text.toList) : Text.isLineEnd c = false := by
  rw [text_eq_intercalate, String.toList_intercalate] at hc
  rcases Text.mem_intercalate hc with hc | ⟨word, hword, hc⟩
  · obtain rfl := List.mem_singleton.mp hc
    decide
  · rw [words, List.map_cons, List.mem_cons] at hword
    rcases hword with rfl | hword
    · exact h.not_lineEnd hc
    · obtain ⟨later, hlater, rfl⟩ := List.mem_map.mp hword
      exact Text.not_lineEnd_of_not_blank ((not_blank_of_mem_laterWords hlater).2 c hc)

/-- The words of a rule write it exactly if its years are plain. -/
theorem written_words_iff :
    Written rule rule.words ↔ rule.start.HasPlainYear ∧ rule.stop.HasPlainYear := by
  rw [← Date.parse_text_eq_ok_iff, ← Date.parse_text_eq_ok_iff]
  by_cases hempty : rule.weekdays.isEmpty
  · have hwords : rule.words =
        [rule.name, rule.effect.keyword, rule.start.text, rule.stop.text] := by
      simp [words, laterWords, hempty]
    rw [hwords]
    constructor
    · intro h
      cases h with
      | unmasked hstart hstop _ => exact ⟨hstart, hstop⟩
    · rintro ⟨hstart, hstop⟩
      exact .unmasked hstart hstop (WeekPattern.eq_empty_of_isEmpty hempty)
  · have hwords : rule.words =
        [rule.name, rule.effect.keyword, rule.start.text, rule.stop.text, rule.weekdays.text] := by
      simp [words, laterWords, hempty]
    have hmask : rule.weekdays = WeekPattern.ofMask rule.weekdays.text.toList := by
      rw [WeekPattern.text, String.toList_ofList, WeekPattern.ofMask_mask]
    rw [hwords]
    constructor
    · intro h
      cases h with
      | masked hstart hstop _ => exact ⟨hstart, hstop⟩
    · rintro ⟨hstart, hstop⟩
      exact .masked hstart hstop hmask

/-- The reader yields plain names only. -/
theorem hasPlainName_of_written {line : List Char} (hends : ∀ c ∈ line, Text.isLineEnd c = false)
    (h : Written rule (tokensOf line)) : rule.HasPlainName := by
  obtain ⟨others, htokens⟩ : ∃ others, tokensOf line = rule.name :: others := by
    generalize tokensOf line = tokens at h
    cases h <;> exact ⟨_, rfl⟩
  obtain ⟨token, rest, htext, hname, -⟩ := List.map_eq_cons_iff.mp htokens
  have hmem : token ∈ Text.tokens (Text.trim line) := htext ▸ List.mem_cons_self
  obtain ⟨hne, hchars⟩ := Text.mem_tokens hmem
  have htoken : rule.name.toList = token := by rw [← hname, String.toList_ofList]
  refine ⟨?_, ?_, ?_⟩
  · intro hempty
    rw [hempty] at htoken
    exact hne htoken.symm
  · intro c hc
    rw [htoken] at hc
    obtain ⟨hmem, hgap⟩ := hchars c hc
    have hend := hends c (Text.mem_of_mem_trim hmem)
    simp only [Text.isGap, Text.isLineEnd, decide_eq_false_iff_not, not_or] at hgap hend
    exact ⟨hgap.1, hgap.2, hend.1, hend.2⟩
  · intro c hc
    rw [htoken] at hc
    cases hline : Text.trim line with
    | nil => simp [hline, Text.tokens] at hmem
    | cons d tail =>
      have hd : Text.isBlank d = false :=
        Text.not_blank_of_mem_head?_trim (congrArg List.head? hline)
      obtain ⟨word, words, hfirst⟩ := Text.tokens_cons_of_not_gap
        (Text.not_gap_of_not_blank hd) tail
      rw [hline, hfirst] at htext
      obtain rfl := (List.cons.inj htext).1
      obtain rfl := Option.some.inj hc
      exact hd

end Rule

namespace Roster

private theorem readings_eq_ok_iff {readings : List Rule.LineReading} {rules : List Rule} :
    readings.filterMap Rule.LineReading.error? = [] ∧
        readings.filterMap Rule.LineReading.rule? = rules ↔
      readings.map Rule.LineReading.outcome = rules.map Except.ok := by
  induction readings generalizing rules with
  | nil => simp [eq_comm]
  | cons reading rest ih =>
    rcases reading with ⟨fault | rule, outdated⟩
    · cases rules <;> simp [Rule.LineReading.error?]
    · cases rules with
      | nil => simp [Rule.LineReading.rule?, Except.toOption]
      | cons first others =>
        simp [Rule.LineReading.rule?, Rule.LineReading.error?, Except.toOption, ← ih,
          and_left_comm]

theorem parse_eq_ok_iff {text : String} {roster : Roster} :
    Roster.parse text = .ok roster ↔
      (Rule.readLines text).map Rule.LineReading.outcome = roster.rules.map Except.ok := by
  rw [← readings_eq_ok_iff]
  unfold Roster.parse Rule.parseAll
  dsimp only
  cases (Rule.readLines text).filterMap Rule.LineReading.error? with
  | nil => simp [Roster.ext_iff]
  | cons fault faults => simp

private theorem toList_text (roster : Roster) :
    roster.text.toList = ['\n'].intercalate (roster.rules.map fun rule => rule.text.toList) := by
  rw [text, String.toList_intercalate, List.map_map]
  rfl

theorem lines_text {roster : Roster} (h : ∀ rule ∈ roster.rules, rule.HasPlainName) :
    Text.lines roster.text.toList = roster.rules.map fun rule => rule.text.toList := by
  rw [toList_text, Text.lines_intercalate]
  intro row hrow
  obtain ⟨rule, hrule, rfl⟩ := List.mem_map.mp hrow
  have hplain := h rule hrule
  refine ⟨?_, hplain.trim_text, fun c hc => hplain.not_lineEnd_of_mem_text hc⟩
  simp [Rule.text]

theorem written_of_parse {text : String} {roster : Roster} (h : Roster.parse text = .ok roster)
    {rule : Rule} (hrule : rule ∈ roster.rules) :
    ∃ line ∈ Text.lines text.toList, Rule.Written rule (Rule.tokensOf line) := by
  have hmem : (.ok rule : Except LineError Rule) ∈ roster.rules.map Except.ok :=
    List.mem_map_of_mem hrule
  rw [← parse_eq_ok_iff.mp h] at hmem
  obtain ⟨reading, hreading, houtcome⟩ := List.mem_map.mp hmem
  obtain ⟨line, hline, rfl⟩ := List.mem_map.mp hreading
  exact ⟨line, hline, Rule.readLine_eq_ok_iff.mp houtcome⟩

theorem plain_of_parse {text : String} {roster : Roster} (h : Roster.parse text = .ok roster)
    {rule : Rule} (hrule : rule ∈ roster.rules) :
    rule.HasPlainName ∧ 0 ≤ rule.start.year ∧ 0 ≤ rule.stop.year := by
  obtain ⟨line, hline, hwritten⟩ := written_of_parse h hrule
  obtain ⟨first, last, hstart, hstop⟩ := hwritten.exists_dates
  have hname := Rule.hasPlainName_of_written (Text.mem_lines hline).2.2 hwritten
  exact ⟨hname, Date.year_nonneg_of_parse hstart, Date.year_nonneg_of_parse hstop⟩

/-- With plain names, it is only the years that decide about the canonical text. -/
theorem parse_text_eq_ok_iff_of_plainNames {roster : Roster}
    (h : ∀ rule ∈ roster.rules, rule.HasPlainName) :
    Roster.parse roster.text = .ok roster ↔
      ∀ rule ∈ roster.rules, rule.start.HasPlainYear ∧ rule.stop.HasPlainYear := by
  rw [parse_eq_ok_iff, Rule.readLines, lines_text h, List.map_map, List.map_map,
    List.map_inj_left]
  refine forall₂_congr fun rule hrule => ?_
  change (Rule.readLine rule.text.toList).outcome = .ok rule ↔ _
  rw [Rule.readLine_eq_ok_iff, (h rule hrule).tokensOf_text, Rule.written_words_iff]

/-- The canonical text of a roster is read as that roster exactly if all names and years are plain.
For a roster that was read from a text, only a year above 9999 stands in the way. -/
theorem reread_text_iff :
    (∀ roster : Roster, Roster.parse roster.text = .ok roster ↔
      ∀ rule ∈ roster.rules,
        rule.HasPlainName ∧ rule.start.HasPlainYear ∧ rule.stop.HasPlainYear) ∧
    ∀ (text : String) (roster : Roster), Roster.parse text = .ok roster →
      (Roster.parse roster.text = .ok roster ↔
        ∀ rule ∈ roster.rules, rule.start.year ≤ 9999 ∧ rule.stop.year ≤ 9999) := by
  constructor
  · intro roster
    constructor
    · intro h rule hrule
      have hnames : ∀ rule ∈ roster.rules, rule.HasPlainName :=
        fun rule hrule => (plain_of_parse h hrule).1
      exact ⟨hnames rule hrule, (parse_text_eq_ok_iff_of_plainNames hnames).mp h rule hrule⟩
    · intro h
      exact (parse_text_eq_ok_iff_of_plainNames fun rule hrule => (h rule hrule).1).mpr
        fun rule hrule => (h rule hrule).2
  · intro text roster hread
    rw [parse_text_eq_ok_iff_of_plainNames fun rule hrule => (plain_of_parse hread hrule).1]
    refine forall₂_congr fun rule hrule => ?_
    obtain ⟨-, hstart, hstop⟩ := plain_of_parse hread hrule
    rw [Date.HasPlainYear, Date.HasPlainYear]
    omega

/-- A rule that ends with the last plain year, at midnight, is read but cannot be read again. -/
theorem not_reread_midnight :
    ∃ roster, Roster.parse "Ann include 2020 9999-12-31T24:00" = .ok roster ∧
      ¬ Roster.parse roster.text = .ok roster := by
  let rule : Rule :=
    ⟨"Ann", .inclusion, ⟨Year.start 2020, by decide⟩, ⟨Year.start 10000, by decide⟩, .empty⟩
  have hread : Roster.parse "Ann include 2020 9999-12-31T24:00" = .ok ⟨[rule]⟩ := by
    decide +kernel
  refine ⟨⟨[rule]⟩, hread, ?_⟩
  rw [reread_text_iff.2 _ _ hread]
  intro h
  exact absurd (h rule List.mem_cons_self).2 (by decide)

end Roster

end DayRoster
