import DayRoster.Command
import DayRoster.Proofs.AgendaWrites
import DayRoster.Proofs.RejectedText

/-!
How a run of the command ends. The file is a text in UTF-8 whose lines are all rules, and then the
whole calendar of the person is printed; or the run fails before anything is printed.
-/

set_option autoImplicit false

namespace DayRoster

private theorem fromUTF8?_eq_some_iff {bytes : ByteArray} {text : String} :
    String.fromUTF8? bytes = some text ↔ bytes = text.toUTF8 := by
  constructor
  · intro h
    rw [String.fromUTF8?] at h
    split at h
    · obtain rfl := Option.some.inj h
      rfl
    · exact nomatch h
  · rintro rfl
    rw [String.fromUTF8?, String.toUTF8_eq_toByteArray, dif_pos text.isValidUTF8]
    rfl

theorem FileState.text_eq_ok_iff {file : FileState} {text : String} :
    file.text = .ok text ↔ file = .content text.toUTF8 := by
  cases file with
  | missing | directory => simp [FileState.text]
  | content bytes =>
    rw [FileState.text, FileState.content.injEq, ← fromUTF8?_eq_some_iff]
    cases String.fromUTF8? bytes <;> simp

namespace Command

variable {request : Request} {file : FileState}

private theorem run_of_unreadable {fault : FileFault} (h : file.text = .error fault) :
    (run request file).code = 1 ∧ (run request file).output = "" := by
  rw [run, h]
  exact ⟨rfl, rfl⟩

private theorem run_of_refused {text : String} {errors : List LineError}
    (h : file.text = .ok text) (hparse : Roster.parse text = .error errors) :
    (run request file).code = 1 ∧ (run request file).output = "" := by
  rw [run, h]
  dsimp only
  rw [hparse]
  exact ⟨rfl, rfl⟩

private theorem run_of_read {text : String} {roster : Roster} (h : file.text = .ok text)
    (hparse : Roster.parse text = .ok roster) :
    (run request file).code = 0 ∧
      (run request file).output = ofLines (calendar roster request.person) := by
  rw [run, h]
  dsimp only
  rw [hparse]
  exact ⟨rfl, rfl⟩

private theorem run_cases (request : Request) (file : FileState) :
    (∃ text roster, file = .content text.toUTF8 ∧ Roster.parse text = .ok roster ∧
      (run request file).code = 0 ∧
      (run request file).output = ofLines (calendar roster request.person)) ∨
    (¬ ∃ text roster, file = .content text.toUTF8 ∧ Roster.parse text = .ok roster) ∧
      (run request file).code = 1 ∧ (run request file).output = "" := by
  cases htext : file.text with
  | error fault =>
    refine .inr ⟨?_, run_of_unreadable htext⟩
    rintro ⟨text, roster, hfile, -⟩
    exact nomatch htext.symm.trans (FileState.text_eq_ok_iff.mpr hfile)
  | ok text =>
    have hfile := FileState.text_eq_ok_iff.mp htext
    cases hparse : Roster.parse text with
    | error errors =>
      refine .inr ⟨?_, run_of_refused htext hparse⟩
      rintro ⟨text', roster, hfile', hparse'⟩
      have htext' := FileState.text_eq_ok_iff.mpr hfile'
      obtain rfl := Except.ok.inj (htext.symm.trans htext')
      exact nomatch hparse.symm.trans hparse'
    | ok roster => exact .inl ⟨text, roster, hfile, hparse, run_of_read htext hparse⟩

theorem calendar_eq (roster : Roster) (person : String) :
    let agenda := roster.select person {}
    calendar roster person =
      (" - people: " ++ ", ".intercalate roster.people) ::
        s!" - selected: {person} ({agenda.enabledDays.length} days)" ::
        (Month.between agenda.firstTouched? agenda.lastTouched?).flatMap fun month =>
          "---" :: (Page.ofMonth {} agenda month).lines := by
  intro agenda
  have hcount : agenda.enabledCount.toNat = agenda.enabledDays.length := agenda.toNat_enabledCount
  rw [calendar, Page.ofAgenda, List.flatMap_map, ← hcount]
  rfl

/-- A run ends with code 0 exactly if the file is a text in UTF-8 whose lines are all rules. It then
prints the people in the rules, the number of enabled days of the person, who is everyone if none is
given, and a page for each month that was touched. Any other run ends with code 1 and prints
nothing. -/
theorem run_whole_or_nothing (path : String) (others : List String) (file : FileState) :
    let person := others.headD "all"
    let request : Request := ⟨path, person⟩
    let outcome := run request file
    Request.ofArguments? (path :: others) = some request ∧
    (outcome.code = 0 ↔ ∃ text : String, file = .content text.toUTF8 ∧
      ∀ row ∈ Text.rows text, ∃ rule, Rule.parse row = .ok rule) ∧
    (outcome.code ≠ 0 → outcome.code = 1 ∧ outcome.output = "") ∧
    (outcome.code = 0 →
      ∃ text roster, file = .content text.toUTF8 ∧ Roster.parse text = .ok roster ∧
        let agenda := roster.select person {}
        outcome.output = ofLines
          ((" - people: " ++ ", ".intercalate roster.people) ::
            s!" - selected: {person} ({agenda.enabledDays.length} days)" ::
            (Month.between agenda.firstTouched? agenda.lastTouched?).flatMap fun month =>
              "---" :: (Page.ofMonth {} agenda month).lines)) := by
  intro person request outcome
  have hrequest : Request.ofArguments? (path :: others) = some request := by
    cases others <;> rfl
  have hrules : (∃ text roster, file = .content text.toUTF8 ∧ Roster.parse text = .ok roster) ↔
      ∃ text : String, file = .content text.toUTF8 ∧
        ∀ row ∈ Text.rows text, ∃ rule, Rule.parse row = .ok rule := by
    refine exists_congr fun text => ?_
    rw [exists_and_left, Roster.exists_parse_eq_ok_iff]
  refine ⟨hrequest, ?_⟩
  rw [← hrules]
  rcases run_cases request file with ⟨text, roster, hfile, hparse, hcode, houtput⟩ |
    ⟨hnone, hcode, houtput⟩
  · refine ⟨⟨fun _ => ⟨text, roster, hfile, hparse⟩, fun _ => hcode⟩, fun h => absurd hcode h,
      fun _ => ⟨text, roster, hfile, hparse, ?_⟩⟩
    exact houtput.trans (congrArg ofLines (calendar_eq roster person))
  · have hne : outcome.code ≠ 0 := by
      change (run request file).code ≠ 0
      rw [hcode]
      decide
    exact ⟨⟨fun h => absurd h hne, fun h => absurd h hnone⟩, fun _ => ⟨hcode, houtput⟩,
      fun h => absurd h hne⟩

/-- Two days of May are enabled for everyone, who is selected if no person is given. -/
theorem run_may_for_everyone :
    let text := "all include 2020-05-01 2020-05-02"
    let outcome := run ⟨"rules.txt", "all"⟩ (.content text.toUTF8)
    outcome.code = 0 ∧ outcome.output = ofLines
      [" - people: all", " - selected: all (2 days)", "---", "May 2020",
        " Su  Mo  Tu  We  Th  Fr  Sa ", "                      1   2",
        "[ 3][ 4][ 5][ 6][ 7][ 8][ 9]", "[10][11][12][13][14][15][16]",
        "[17][18][19][20][21][22][23]", "[24][25][26][27][28][29][30]", "[31]"] := by
  intro text outcome
  let rule : Rule := ⟨"all", .inclusion, ⟨Year.start 2020 + 121, by decide⟩,
    ⟨Year.start 2020 + 122, by decide⟩, .empty⟩
  have hread : Roster.parse text = .ok ⟨[rule]⟩ := by decide +kernel
  obtain ⟨-, hcode, -, houtput⟩ :=
    run_whole_or_nothing "rules.txt" [] (.content text.toUTF8)
  have hzero : outcome.code = 0 :=
    hcode.mpr ⟨text, rfl, Roster.exists_parse_eq_ok_iff.mp ⟨_, hread⟩⟩
  obtain ⟨text', roster, hfile, hparse, hprinted⟩ := houtput hzero
  obtain rfl : text = text' := String.toByteArray_inj.mp (FileState.content.inj hfile)
  obtain rfl : ⟨[rule]⟩ = roster := Except.ok.inj (hread.symm.trans hparse)
  refine ⟨hzero, hprinted.trans (congrArg ofLines ?_)⟩
  decide +kernel

end Command

end DayRoster
