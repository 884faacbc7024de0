import DayRoster.Proofs.RuleEffects
import DayRoster.Proofs.WeekStart

/-!
What a write to a range depends on. Which days get the same state under the same filter is all that
counts, so a range may be cut into pieces in any way: the pieces may overlap, stand in any order and
be reversed. Under any settings each position below 7 is that of some day, so two filters do the
same to all agendas exactly if they admit the same of these positions, and a filter never changes
the stored days exactly if it admits none of them.
-/

set_option autoImplicit false

namespace DayRoster

namespace Agenda

variable {agenda : Agenda} {enabled : Bool} {filter : Option WeekPattern}

/-- Neither the order of the written days nor their repetitions matter. -/
theorem foldl_write_congr {days others : List Date} (h : ∀ d, d ∈ days ↔ d ∈ others) :
    days.foldl (fun agenda d => agenda.write d enabled filter) agenda =
      others.foldl (fun agenda d => agenda.write d enabled filter) agenda := by
  apply ext_state
  · intro d
    rw [state?_foldl_write, state?_foldl_write]
    simp only [h d]
  · rw [extent_foldl_write, extent_foldl_write]
    exact Extent.foldl_touch_congr h agenda.extent
  · rw [settings_foldl_write, settings_foldl_write]

/-- A range may be cut in any way. Pieces that have the same days together do what the range does,
in whatever order they are written. -/
theorem writeRange_in_pieces (agenda : Agenda) (start stop : Date) (enabled : Bool)
    (filter : Option WeekPattern) (pieces : List (Date × Date))
    (h : ∀ d, (∃ piece ∈ pieces, piece.1 ≤ d ∧ d ≤ piece.2) ↔ start ≤ d ∧ d ≤ stop) :
    pieces.foldl (fun agenda piece => agenda.writeRange piece.1 piece.2 enabled filter) agenda =
      agenda.writeRange start stop enabled filter := by
  have hdays : ∀ d, d ∈ (pieces.flatMap fun piece => Date.range piece.1 piece.2) ↔
      d ∈ Date.range start stop := by
    intro d
    rw [List.mem_flatMap, Date.mem_range_iff]
    constructor
    · rintro ⟨piece, hpiece, hd⟩
      obtain ⟨hlo, hhi, hlast⟩ := Date.mem_range_iff.mp hd
      obtain ⟨hstart, hstop⟩ := (h d).mp ⟨piece, hpiece, hlo, hhi⟩
      exact ⟨hstart, hstop, hlast⟩
    · rintro ⟨hlo, hhi, hlast⟩
      obtain ⟨piece, hpiece, hstart, hstop⟩ := (h d).mpr ⟨hlo, hhi⟩
      exact ⟨piece, hpiece, Date.mem_range_iff.mpr ⟨hstart, hstop, hlast⟩⟩
  calc pieces.foldl (fun agenda piece => agenda.writeRange piece.1 piece.2 enabled filter) agenda
      = (pieces.flatMap fun piece => Date.range piece.1 piece.2).foldl
          (fun agenda d => agenda.write d enabled filter) agenda := List.foldl_flatMap.symm
    _ = agenda.writeRange start stop enabled filter := foldl_write_congr hdays

/-- The last four supported days, in two pieces that share a day and a reversed one. -/
theorem writeRange_last_days_in_pieces :
    let last := Date.lastSupported
    let first : Date := ⟨Year.start 262143 - 4, by decide⟩
    let middle : Date := ⟨Year.start 262143 - 2, by decide⟩
    let pieces := [(middle, last), (last, first), (first, middle)]
    let weekend : WeekPattern := .ofList [0, 6]
    (∀ d, (∃ piece ∈ pieces, piece.1 ≤ d ∧ d ≤ piece.2) ↔ first ≤ d ∧ d ≤ last) ∧
      pieces.foldl (fun agenda piece => agenda.writeRange piece.1 piece.2 true (some weekend)) {} =
        writeRange {} first last true (some weekend) := by
  intro last first middle pieces weekend
  have hfirst : first ≤ middle := by decide
  have hlast : middle ≤ last := by decide
  have hdays : ∀ d, (∃ piece ∈ pieces, piece.1 ≤ d ∧ d ≤ piece.2) ↔ first ≤ d ∧ d ≤ last := by
    intro d
    simp only [pieces, List.exists_mem_cons_iff, List.not_mem_nil, false_and, exists_false,
      or_false]
    constructor
    · rintro (⟨hlo, hhi⟩ | ⟨hlo, hhi⟩ | ⟨hlo, hhi⟩)
      · exact ⟨hfirst.trans hlo, hhi⟩
      · exact ⟨hfirst.trans (hlast.trans hlo), hhi.trans (hfirst.trans hlast)⟩
      · exact ⟨hlo, hhi.trans hlast⟩
    · rintro ⟨hlo, hhi⟩
      rcases le_total middle d with hmiddle | hmiddle
      · exact .inl ⟨hmiddle, hhi⟩
      · exact .inr (.inr ⟨hlo, hmiddle⟩)
  exact ⟨hdays, writeRange_in_pieces _ _ _ _ _ pieces hdays⟩

end Agenda

theorem Settings.exists_position_eq (settings : Settings) {n : Nat} (h : n < 7) :
    ∃ d, d ≠ Date.lastSupported ∧ settings.position d = n := by
  let origin : Date := ⟨0, by decide⟩
  let count := (n + 7 - settings.position origin) % 7
  have horigin := settings.position_lt origin
  have hlo : Year.start (-262143) ≤ 0 := by decide
  have hhi : 7 ≤ Year.start 262143 - 1 := by decide
  let d : Date := ⟨count, by omega, by omega⟩
  refine ⟨d, ?_, ?_⟩
  · rw [ne_eq, Date.ext_iff]
    change ¬ (count : Int) = Year.start 262143 - 1
    omega
  · have hnumber : d.dayNumber = origin.dayNumber + count := (Int.zero_add _).symm
    have hposition : settings.position d = (settings.position origin + count) % 7 :=
      Date.position_weekday_of_dayNumber_eq hnumber settings.weekStart
    omega

namespace WeekPattern

variable {s : WeekPattern}

theorem admits_iff {n : Nat} : s.admits n ↔ s.positions = [] ∨ n ∈ s.positions := by
  simp [admits, isEmpty]

theorem matchesNoDay_iff : s.matchesNoDay ↔ ∀ n < 7, ¬ s.admits n := by
  have hbeyond : s.matchesNoDay ↔ s.positions ≠ [] ∧ ∀ n ∈ s.positions, 7 ≤ n := by
    simp [matchesNoDay, isEmpty]
  rw [hbeyond]
  constructor
  · rintro ⟨hne, hall⟩ n hn hadmits
    have hle := hall n ((admits_iff.mp hadmits).resolve_left hne)
    omega
  · intro hnone
    refine ⟨fun hnil => hnone 0 (by decide) (admits_iff.mpr (.inl hnil)), fun n hn => ?_⟩
    by_contra hlt
    exact hnone n (Nat.lt_of_not_le hlt) (admits_iff.mpr (.inr hn))

end WeekPattern

namespace Agenda

/-- Two filters do the same to every agenda, whatever range is written. -/
def ActAlike (filter other : Option WeekPattern) : Prop :=
  ∀ (agenda : Agenda) (start stop : Date) (enabled : Bool),
    agenda.writeRange start stop enabled filter = agenda.writeRange start stop enabled other

variable {filter other : Option WeekPattern} {s : WeekPattern} {settings : Settings} {d : Date}

private theorem state?_writeRange_fresh_iff (hd : d ≠ Date.lastSupported) (enabled : Bool) :
    (writeRange { settings } d d enabled filter).state? d = some enabled ↔
      filter.all fun weekdays => weekdays.admits (settings.position d) := by
  have hcovers : Date.Covers d d d := ⟨le_refl d, le_refl d, hd⟩
  have hfresh : state? { settings } d = none := state?_clear { settings } d
  rw [state?_writeRange, hfresh]
  simp only [hcovers, true_and, ite_eq_left_iff, reduceCtorEq, imp_false, Decidable.not_not]
  rfl

theorem writeRange_congr_filter {agenda : Agenda}
    (h : ∀ d, agenda.settings.Passes other d ↔ agenda.settings.Passes filter d)
    (start stop : Date) (enabled : Bool) :
    agenda.writeRange start stop enabled filter = agenda.writeRange start stop enabled other := by
  have hsettings := agenda.settings_writeRange enabled filter start stop
  have hsame := writeRange_withSettings h rfl start stop enabled
  calc agenda.writeRange start stop enabled filter
      = (agenda.writeRange start stop enabled filter).withSettings agenda.settings := by
        rw [← hsettings]
        rfl
    _ = agenda.writeRange start stop enabled other := hsame.symm

theorem actAlike_iff : ActAlike filter other ↔
    ∀ n < 7, filter.all (·.admits n) = other.all (·.admits n) := by
  constructor
  · intro h n hn
    obtain ⟨d, hd, rfl⟩ := Settings.exists_position_eq {} hn
    rw [Bool.eq_iff_iff, ← state?_writeRange_fresh_iff hd true,
      ← state?_writeRange_fresh_iff hd true, h]
  · intro h agenda start stop enabled
    apply writeRange_congr_filter
    intro d
    rw [← admits_iff, ← admits_iff, admits, admits, h _ (agenda.settings.position_lt d)]

theorem days_writeRange_of_matchesNoDay (h : s.matchesNoDay) (agenda : Agenda) (start stop : Date)
    (enabled : Bool) : (agenda.writeRange start stop enabled (some s)).days = agenda.days := by
  refine Std.ExtTreeMap.ext_getElem? fun {d} => ?_
  have hnone := WeekPattern.matchesNoDay_iff.mp h _ (agenda.settings.position_lt d)
  exact (state?_writeRange agenda enabled (some s) start stop d).trans
    (if_neg fun hwritten => hnone hwritten.2)

theorem matchesNoDay_of_days_eq_empty {enabled : Bool}
    (h : ∀ start stop, (writeRange { settings } start stop enabled (some s)).days = ∅) :
    s.matchesNoDay := by
  refine WeekPattern.matchesNoDay_iff.mpr fun n hn hadmits => ?_
  obtain ⟨d, hd, rfl⟩ := settings.exists_position_eq hn
  have hstate : (writeRange { settings } d d enabled (some s)).state? d = some enabled :=
    (state?_writeRange_fresh_iff hd enabled).mpr hadmits
  rw [state?, h d d] at hstate
  simp at hstate

/-- A pattern matches no day exactly if as a filter it leaves the stored days of every agenda as
they are, and an agenda without days is enough to tell. Filters with the same positions below 7 act
alike if both or none of them are empty, and in general those filters act alike that admit the same
of these positions. Where there is no filter, the same happens as with the empty one. -/
theorem writeRange_by_filter (s t : WeekPattern) :
    (s.matchesNoDay ↔ ∀ (agenda : Agenda) (start stop : Date) (enabled : Bool),
      (agenda.writeRange start stop enabled (some s)).days = agenda.days) ∧
    (∀ (settings : Settings) (enabled : Bool), s.matchesNoDay ↔ ∀ start stop : Date,
      (writeRange { settings } start stop enabled (some s)).days = ∅) ∧
    (s.isEmpty = t.isEmpty → (∀ n < 7, s.contains n = t.contains n) →
      ActAlike (some s) (some t)) ∧
    (ActAlike (some s) (some t) ↔ ∀ n < 7, s.admits n = t.admits n) ∧
    (ActAlike none (some s) ↔ ∀ n < 7, s.admits n) ∧
    ActAlike none (some .empty) := by
  have hfresh (settings : Settings) (enabled : Bool) : s.matchesNoDay ↔ ∀ start stop : Date,
      (writeRange { settings } start stop enabled (some s)).days = ∅ :=
    ⟨fun h start stop => days_writeRange_of_matchesNoDay h { settings } start stop enabled,
      matchesNoDay_of_days_eq_empty⟩
  have hnone : ActAlike none (some s) ↔ ∀ n < 7, s.admits n := by
    rw [actAlike_iff]
    simp only [Option.all_none, Option.all_some, eq_comm (a := true)]
  refine ⟨⟨days_writeRange_of_matchesNoDay, fun h => ?_⟩, hfresh, fun hempty hcontains => ?_,
    actAlike_iff, hnone, ?_⟩
  · exact (hfresh {} true).mpr fun start stop => h {} start stop true
  · refine actAlike_iff.mpr fun n hn => ?_
    simp only [Option.all_some, WeekPattern.admits, hempty, hcontains n hn]
  · exact actAlike_iff.mpr fun _ _ => rfl

/-- Position 7 is that of no day, and position 9 makes no difference to a weekend. -/
theorem writeRange_beyond_week :
    (∀ (agenda : Agenda) (start stop : Date) (enabled : Bool),
      (agenda.writeRange start stop enabled (some (.ofList [7]))).days = agenda.days) ∧
    ActAlike (some (.ofList [0, 6])) (some (.ofList [6, 9, 0])) := by
  obtain ⟨hnothing, -⟩ := writeRange_by_filter (.ofList [7]) .empty
  obtain ⟨-, -, halike, -⟩ := writeRange_by_filter (.ofList [0, 6]) (.ofList [6, 9, 0])
  exact ⟨hnothing.mp (by decide), halike (by decide) (by decide)⟩

end Agenda

end DayRoster
