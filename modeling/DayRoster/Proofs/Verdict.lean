import DayRoster.Proofs.CanonicalText
import DayRoster.Proofs.TouchedDays
import DayRoster.SelfCheck

/-!
How the check of the library on a given text ends. The parts of an agenda agree with each other
after every selection, so that only the canonical text can give rise to a disagreement: it does so
exactly if a rule reaches beyond the year 9999, and the text is then no roster at all.
-/

set_option autoImplicit false

namespace DayRoster

theorem Rule.hasPlainYears_of_written_words {rule other : Rule} (h : Written other rule.words) :
    rule.start.HasPlainYear ∧ rule.stop.HasPlainYear := by
  generalize hwords : rule.words = tokens at h
  cases h with
  | unmasked hstart hstop _ | masked hstart hstop _ =>
    simp only [words, laterWords, List.cons_append, List.cons.injEq] at hwords
    obtain ⟨-, -, rfl, rfl, -⟩ := hwords
    exact ⟨Date.hasPlainYear_of_parse_text hstart, Date.hasPlainYear_of_parse_text hstop⟩

namespace Roster

variable {text : String} {roster : Roster}

private theorem plainYears_of_parse_text {other : Roster}
    (hnames : ∀ rule ∈ roster.rules, rule.HasPlainName)
    (h : Roster.parse roster.text = .ok other) :
    ∀ rule ∈ roster.rules, rule.start.HasPlainYear ∧ rule.stop.HasPlainYear := by
  intro rule hrule
  have hline : rule.text.toList ∈ Text.lines roster.text.toList := by
    rw [lines_text hnames]
    exact List.mem_map_of_mem hrule
  have houtcome : (Rule.readLine rule.text.toList).outcome ∈ other.rules.map Except.ok := by
    rw [← parse_eq_ok_iff.mp h]
    exact List.mem_map_of_mem (List.mem_map_of_mem hline)
  obtain ⟨read, -, hread⟩ := List.mem_map.mp houtcome
  have hwritten := Rule.readLine_eq_ok_iff.mp hread.symm
  rw [(hnames rule hrule).tokensOf_text] at hwritten
  exact Rule.hasPlainYears_of_written_words hwritten

/-- The canonical text of a roster that was read is that roster, or it is none. -/
theorem parse_text_of_parse (h : Roster.parse text = .ok roster) :
    ((∀ rule ∈ roster.rules, rule.start.year ≤ 9999 ∧ rule.stop.year ≤ 9999) ∧
        Roster.parse roster.text = .ok roster) ∨
      (∃ rule ∈ roster.rules, 9999 < rule.start.year ∨ 9999 < rule.stop.year) ∧
        ∃ errors, Roster.parse roster.text = .error errors := by
  have hnames : ∀ rule ∈ roster.rules, rule.HasPlainName :=
    fun rule hrule => (plain_of_parse h hrule).1
  by_cases hyears : ∀ rule ∈ roster.rules, rule.start.year ≤ 9999 ∧ rule.stop.year ≤ 9999
  · refine .inl ⟨hyears, (parse_text_eq_ok_iff_of_plainNames hnames).mpr fun rule hrule => ?_⟩
    obtain ⟨-, hstart, hstop⟩ := plain_of_parse h hrule
    exact ⟨⟨hstart, (hyears rule hrule).1⟩, ⟨hstop, (hyears rule hrule).2⟩⟩
  · refine .inr ⟨?_, ?_⟩
    · simpa only [not_forall, exists_prop, not_and_or, not_le] using hyears
    · cases hreread : Roster.parse roster.text with
      | error errors => exact ⟨errors, rfl⟩
      | ok other =>
        refine absurd (fun rule hrule => ?_) hyears
        obtain ⟨hstart, hstop⟩ := plainYears_of_parse_text hnames hreread rule hrule
        exact ⟨hstart.2, hstop.2⟩

end Roster

namespace Scenario

variable {scenario : Scenario} {agenda : Agenda} {touched : Set Date} {roster : Roster}

/-- What the checks of an agenda ask for. The number of enabled days is that of the days listed. No
day is touched, and none is enabled; or the first touched day is not after the last one, no enabled
day lies outside of the two, and the probed day is not enabled if it does. -/
def Agrees (scenario : Scenario) (agenda : Agenda) : Prop :=
  agenda.enabledCount.toNat = agenda.enabledDays.length ∧
    ((agenda.firstTouched? = none ∧ agenda.lastTouched? = none ∧ agenda.enabledCount = 0) ∨
      ∃ least greatest, agenda.firstTouched? = some least ∧ agenda.lastTouched? = some greatest ∧
        least ≤ greatest ∧
        (∀ d ∈ agenda.enabledDays, least ≤ d ∧ d ≤ greatest) ∧
        (scenario.probedDay least < least ∨ greatest < scenario.probedDay least →
          ¬ agenda.isEnabled (scenario.probedDay least)))

private theorem ensure_eq_ok_iff {condition : Bool} {disagreement : Disagreement} :
    ensure condition disagreement = .ok () ↔ condition := by
  cases condition <;> simp [ensure]

private theorem ensure_bind_eq_ok_iff {condition : Bool} {disagreement : Disagreement}
    {next : Unit → Except Disagreement Unit} :
    (ensure condition disagreement >>= next) = .ok () ↔ condition ∧ next () = .ok () := by
  cases condition with
  | false => exact ⟨fun h => (nomatch h), fun h => (nomatch h.1)⟩
  | true => exact (and_iff_right rfl).symm

private theorem within_or_not_isEnabled_iff {least greatest d : Date} :
    (least ≤ d ∧ d ≤ greatest) ∨ ¬ agenda.isEnabled d ↔
      (d < least ∨ greatest < d → ¬ agenda.isEnabled d) := by
  rw [← not_le, ← not_le, ← not_and_or, ← or_iff_not_imp_left]

theorem checkAgenda_eq_ok_iff : scenario.checkAgenda agenda = .ok () ↔ scenario.Agrees agenda := by
  rw [checkAgenda, ensure_bind_eq_ok_iff, decide_eq_true_iff, Agrees]
  refine and_congr_right fun _ => ?_
  cases agenda.firstTouched? with
  | none =>
    cases agenda.lastTouched? with
    | none => simp [ensure_eq_ok_iff]
    | some greatest => simp
  | some least =>
    cases agenda.lastTouched? with
    | none => simp
    | some greatest =>
      simp only [ensure_bind_eq_ok_iff, ensure_eq_ok_iff, List.all_eq_true, decide_eq_true_iff,
        within_or_not_isEnabled_iff]
      simp

theorem agrees_of_tracks (h : agenda.Tracks touched) : scenario.Agrees agenda := by
  have hcount := agenda.toNat_enabledCount
  refine ⟨hcount, ?_⟩
  have hextent := h.isExtent
  rw [Agenda.firstTouched?, Agenda.lastTouched?]
  cases hnow : agenda.extent with
  | none =>
    rw [hnow] at hextent
    have hempty : touched = ∅ := hextent
    have hnone : agenda.enabledDays = [] := by
      refine List.eq_nil_iff_forall_not_mem.mpr fun d hd => ?_
      have hmem := h.mem_of_isEnabled (agenda.isEnabled_iff_mem.mpr hd)
      exact Set.notMem_empty d (hempty ▸ hmem)
    rw [hnone] at hcount
    exact .inl ⟨rfl, rfl, UInt32.toNat_inj.mp hcount⟩
  | some extent =>
    rw [hnow] at hextent
    obtain ⟨hleast, hgreatest⟩ := hextent
    have hwithin : ∀ d, agenda.isEnabled d → extent.least ≤ d ∧ d ≤ extent.greatest := by
      intro d hd
      have hmem := h.mem_of_isEnabled hd
      exact ⟨hleast.2 hmem, hgreatest.2 hmem⟩
    refine .inr ⟨extent.least, extent.greatest, rfl, rfl, hleast.2 hgreatest.1,
      fun d hd => hwithin d (agenda.isEnabled_iff_mem.mpr hd), fun houtside henabled => ?_⟩
    obtain ⟨hlo, hhi⟩ := hwithin _ henabled
    exact houtside.elim (not_lt.mpr hlo) (not_lt.mpr hhi)

theorem checkAgenda_select (scenario : Scenario) (roster : Roster) (person : String)
    (agenda : Agenda) : scenario.checkAgenda (roster.select person agenda) = .ok () :=
  checkAgenda_eq_ok_iff.mpr (agrees_of_tracks (Agenda.Tracks.select agenda roster person))

private theorem verdict_of_unreadable {errors : List LineError}
    (h : Roster.parse scenario.text = .error errors) : scenario.verdict = .skipped := by
  rw [verdict, h]

private theorem verdict_of_tooLong (h : Roster.parse scenario.text = .ok roster)
    (hlong : roster.rules.any isTooLong) : scenario.verdict = .skipped := by
  rw [verdict, h]
  exact if_pos hlong

private theorem verdict_of_checked (h : Roster.parse scenario.text = .ok roster)
    (hlong : ¬ roster.rules.any isTooLong) :
    scenario.verdict = (match checkText roster with
      | .ok _ => .consistent
      | .error disagreement => .inconsistent disagreement) := by
  rw [verdict, h]
  dsimp only
  rw [if_neg hlong, checkAgenda_select]
  cases checkText roster <;> rfl

private theorem verdict_of_short (h : Roster.parse scenario.text = .ok roster)
    (hlong : ¬ roster.rules.any isTooLong) :
    ((∀ rule ∈ roster.rules, rule.start.year ≤ 9999 ∧ rule.stop.year ≤ 9999) ∧
        Roster.parse roster.text = .ok roster ∧ scenario.verdict = .consistent) ∨
      (∃ rule ∈ roster.rules, 9999 < rule.start.year ∨ 9999 < rule.stop.year) ∧
        ∃ errors, Roster.parse roster.text = .error errors ∧
          scenario.verdict = .inconsistent (.unreadable errors) := by
  rw [verdict_of_checked h hlong, checkText]
  rcases Roster.parse_text_of_parse h with ⟨hyears, hreread⟩ | ⟨hyear, errors, hreread⟩
  · rw [hreread]
    dsimp only
    rw [ensure, if_pos (decide_eq_true rfl)]
    exact .inl ⟨hyears, rfl, rfl⟩
  · rw [hreread]
    exact .inr ⟨hyear, errors, rfl, rfl⟩

private theorem any_isTooLong_iff (roster : Roster) :
    roster.rules.any isTooLong ↔
      ∃ rule ∈ roster.rules, 3660 < rule.stop.dayNumber - rule.start.dayNumber := by
  rw [List.any_eq_true]
  exact exists_congr fun rule => and_congr_right fun _ => decide_eq_true_iff

private theorem verdict_eq_skipped_iff (scenario : Scenario) :
    scenario.verdict = .skipped ↔
      (∃ errors, Roster.parse scenario.text = .error errors) ∨
        ∃ roster, Roster.parse scenario.text = .ok roster ∧
          ∃ rule ∈ roster.rules, 3660 < rule.stop.dayNumber - rule.start.dayNumber := by
  cases hread : Roster.parse scenario.text with
  | error errors =>
    have hskipped := verdict_of_unreadable hread
    exact ⟨fun _ => .inl ⟨errors, rfl⟩, fun _ => hskipped⟩
  | ok roster =>
    by_cases hlong : roster.rules.any isTooLong
    · have hskipped := verdict_of_tooLong hread hlong
      exact ⟨fun _ => .inr ⟨roster, rfl, (any_isTooLong_iff roster).mp hlong⟩, fun _ => hskipped⟩
    · constructor
      · intro hskipped
        rcases verdict_of_short hread hlong with ⟨-, -, hverdict⟩ | ⟨-, errors, -, hverdict⟩
        all_goals exact nomatch hskipped.symm.trans hverdict
      · rintro (⟨errors, herror⟩ | ⟨other, hother, hrule⟩)
        · exact nomatch herror
        · obtain rfl := Except.ok.inj hother
          exact absurd ((any_isTooLong_iff roster).mpr hrule) hlong

/-- A check is skipped if the text is no roster or has a rule that is too long. Else there is a
disagreement exactly if a rule reaches beyond the year 9999, and all there is to it is that the
canonical text cannot be read; the parts of the agenda agree in any case. -/
theorem verdict_outcomes (scenario : Scenario) :
    (scenario.verdict = .skipped ↔
      (∃ errors, Roster.parse scenario.text = .error errors) ∨
        ∃ roster, Roster.parse scenario.text = .ok roster ∧
          ∃ rule ∈ roster.rules, 3660 < rule.stop.dayNumber - rule.start.dayNumber) ∧
    ∀ roster, Roster.parse scenario.text = .ok roster →
      (∀ rule ∈ roster.rules, rule.stop.dayNumber - rule.start.dayNumber ≤ 3660) →
      let agenda := roster.select scenario.person (Agenda.withSettings {} scenario.settings)
      ((∃ disagreement, scenario.verdict = .inconsistent disagreement) ↔
        ∃ rule ∈ roster.rules, 9999 < rule.start.year ∨ 9999 < rule.stop.year) ∧
      (∀ disagreement, scenario.verdict = .inconsistent disagreement →
        ∃ errors, Roster.parse roster.text = .error errors ∧
          disagreement = .unreadable errors ∧ disagreement.message = LineError.report errors) ∧
      (scenario.verdict = .consistent ↔
        ∀ rule ∈ roster.rules, rule.start.year ≤ 9999 ∧ rule.stop.year ≤ 9999) ∧
      (scenario.verdict = .consistent → Roster.parse roster.text = .ok roster) ∧
      scenario.checkAgenda agenda = .ok () ∧ scenario.Agrees agenda := by
  refine ⟨verdict_eq_skipped_iff scenario, ?_⟩
  intro roster hread hshort agenda
  have hok : scenario.checkAgenda agenda = .ok () :=
    checkAgenda_select scenario roster scenario.person _
  have hchecked := And.intro hok (checkAgenda_eq_ok_iff.mp hok)
  have hlong : ¬ roster.rules.any isTooLong := by
    rw [any_isTooLong_iff]
    rintro ⟨rule, hrule, h⟩
    exact absurd (hshort rule hrule) (not_le.mpr h)
  rcases verdict_of_short hread hlong with
    ⟨hyears, hreread, hverdict⟩ | ⟨⟨rule, hrule, hyear⟩, errors, herrors, hverdict⟩
  · refine ⟨⟨?_, ?_⟩, ?_, ⟨fun _ => hyears, fun _ => hverdict⟩, fun _ => hreread, hchecked⟩
    · rintro ⟨disagreement, h⟩
      exact nomatch hverdict.symm.trans h
    · rintro ⟨rule, hrule, hyear⟩
      have := hyears rule hrule
      omega
    · intro disagreement h
      exact nomatch hverdict.symm.trans h
  · refine ⟨⟨fun _ => ⟨rule, hrule, hyear⟩, fun _ => ⟨_, hverdict⟩⟩, ?_, ⟨?_, ?_⟩, ?_, hchecked⟩
    · intro disagreement h
      obtain rfl := Verdict.inconsistent.inj (hverdict.symm.trans h)
      exact ⟨errors, herrors, rfl, rfl⟩
    · intro h
      exact nomatch hverdict.symm.trans h
    · intro hyears
      have := hyears rule hrule
      omega
    · intro h
      exact nomatch hverdict.symm.trans h

/-- The day after the last plain year ends a rule that is read, but its text cannot be read again. -/
theorem verdict_midnight :
    ∃ errors, Scenario.verdict ⟨"Ann include 9999-12-31 9999-12-31T24:00", "Ann", 8, -12⟩ =
      .inconsistent (.unreadable errors) := by
  let rule : Rule :=
    ⟨"Ann", .inclusion, ⟨Year.start 10000 - 1, by decide⟩, ⟨Year.start 10000, by decide⟩, .empty⟩
  let scenario : Scenario := ⟨"Ann include 9999-12-31 9999-12-31T24:00", "Ann", 8, -12⟩
  have hread : Roster.parse scenario.text = .ok ⟨[rule]⟩ := by decide +kernel
  have hshort : ∀ r ∈ [rule], r.stop.dayNumber - r.start.dayNumber ≤ 3660 := by decide
  obtain ⟨hdisagree, hcause, -⟩ := (verdict_outcomes scenario).2 _ hread hshort
  obtain ⟨disagreement, hverdict⟩ := hdisagree.mpr ⟨rule, List.mem_cons_self, .inr (by decide)⟩
  obtain ⟨errors, -, rfl, -⟩ := hcause _ hverdict
  exact ⟨errors, hverdict⟩

end Scenario

end DayRoster
