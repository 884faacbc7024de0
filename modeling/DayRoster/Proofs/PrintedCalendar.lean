import DayRoster.Proofs.TouchedDays
import DayRoster.Proofs.WeekGrid
import DayRoster.Proofs.WeekLine
import Mathlib.Data.List.Sort

/-!
The printed calendar accounts for a selection. What the lines of its weeks show, read off the
printed text and over all pages, is each enabled day without brackets and each other day of the
listed months in brackets, and no month is listed without a day between the first and the last
touched one.
-/

set_option autoImplicit false

namespace DayRoster

namespace Cell

def enabledDay? : Cell → Option Nat
  | enabled day => some day
  | outside | disabled _ => none

def disabledDay? : Cell → Option Nat
  | disabled day => some day
  | outside | enabled _ => none

end Cell

namespace Page

/-- What the lines below the title and the days of the week show. -/
def shown (page : Page) : List Cell := (page.lines.drop 2).flatMap Cell.readWeek

/-- The dates that a page shows without brackets. A number that is no day of the month would have
none. -/
def unbracketed (page : Page) : List (Option Date) :=
  (page.shown.filterMap Cell.enabledDay?).map page.month.day?

def bracketed (page : Page) : List (Option Date) :=
  (page.shown.filterMap Cell.disabledDay?).map page.month.day?

variable (settings : Settings) (agenda : Agenda) (m : Month)

theorem fits_cell {row : List (Option Nat)} (hrow : row ∈ m.weeks settings.weekStart)
    {cell : Cell} (hcell : cell ∈ row.map (Page.cell agenda m)) : cell.Fits := by
  obtain ⟨place, hplace, rfl⟩ := List.mem_map.mp hcell
  cases place with
  | none => trivial
  | some day =>
    have hday : day ∈ List.range' 1 m.dayCount := by
      rw [← m.days_of_weeks settings.weekStart, List.mem_filterMap]
      exact ⟨some day, List.mem_flatten.mpr ⟨row, hrow, hplace⟩, rfl⟩
    have hlt := (List.mem_range'_1.mp hday).2
    have hcount : m.dayCount ≤ 31 := by
      rw [m.dayCount_eq]
      exact Year.monthLength_le _ _
    have hfits : day < 100 := by omega
    rw [Page.cell]
    split
    · exact hfits
    · exact hfits

private theorem shown_ofMonth :
    (ofMonth settings agenda m).shown =
      (m.weeks settings.weekStart).flatten.map (cell agenda m) := by
  have hrows : ∀ row ∈ m.weeks settings.weekStart,
      Cell.readWeek (weekLine (row.map (cell agenda m))) = row.map (cell agenda m) := by
    intro row hrow
    refine Cell.readWeek_weekLine ?_ fun _ => fits_cell settings agenda m hrow
    rw [List.length_map, Month.length_of_mem_weeks hrow]
  have hlines : (ofMonth settings agenda m).lines.drop 2 =
      (m.weeks settings.weekStart).map fun row => weekLine (row.map (cell agenda m)) := by
    simp [lines, ofMonth]
  rw [shown, hlines, List.flatMap_map, List.map_flatten, ← List.flatMap_def]
  exact List.flatMap_congr hrows

private theorem map_filterMap_shown {day? : Cell → Option Nat} {p : Date → Bool}
    (houtside : day? .outside = none)
    (hday : ∀ k d, m.day? k = some d →
      day? (cell agenda m (some k)) = if p d then some k else none) :
    ((ofMonth settings agenda m).shown.filterMap day?).map m.day? =
      (m.dates.filter p).map some := by
  -- The empty places show nothing, so that only the days of the month are left.
  have hplaces : (m.weeks settings.weekStart).flatten.filterMap (day? ∘ cell agenda m) =
      (List.range' 1 m.dayCount).filterMap fun k => day? (cell agenda m (some k)) := by
    rw [← m.days_of_weeks settings.weekStart, List.filterMap_filterMap]
    refine List.filterMap_congr fun place _ => ?_
    cases place with
    | none => exact houtside
    | some k => rfl
  have hfilter : ((List.range' 1 m.dayCount).filterMap fun k => day? (cell agenda m (some k))) =
      (List.range' 1 m.dayCount).filter fun k => (m.day? k).any p := by
    rw [← List.filterMap_eq_filter]
    refine List.filterMap_congr fun k hk => ?_
    obtain ⟨hlo, hhi⟩ := List.mem_range'_1.mp hk
    obtain ⟨d, hd⟩ := Month.exists_day?_eq_some hlo (by omega : k ≤ m.dayCount)
    rw [hday k d hd, Option.guard, hd, Option.any_some]
  calc ((ofMonth settings agenda m).shown.filterMap day?).map m.day?
      = ((List.range' 1 m.dayCount).filter fun k => (m.day? k).any p).map m.day? := by
        rw [shown_ofMonth, List.filterMap_map, hplaces, hfilter]
    _ = ((List.range' 1 m.dayCount).map m.day?).filter fun date => date.any p :=
        (List.filter_map (p := Option.any p) (f := m.day?)).symm
    _ = (m.dates.map some).filter fun date => date.any p := by rw [m.map_day?]
    _ = (m.dates.filter p).map some := List.filter_map

theorem unbracketed_ofMonth :
    (ofMonth settings agenda m).unbracketed = (m.dates.filter agenda.isEnabled).map some := by
  refine map_filterMap_shown settings agenda m rfl fun k d hd => ?_
  rw [cell, hd, Option.any_some]
  split <;> rfl

theorem bracketed_ofMonth :
    (ofMonth settings agenda m).bracketed =
      (m.dates.filter fun d => !agenda.isEnabled d).map some := by
  refine map_filterMap_shown settings agenda m rfl fun k d hd => ?_
  rw [cell, hd, Option.any_some]
  cases agenda.isEnabled d <;> rfl

private theorem unbracketed_ofAgenda :
    (ofAgenda settings agenda).flatMap unbracketed =
      (((Month.between agenda.firstTouched? agenda.lastTouched?).flatMap Month.dates).filter
        agenda.isEnabled).map some := by
  rw [ofAgenda, List.flatMap_map, List.filter_flatMap, List.map_flatMap]
  exact List.flatMap_congr fun m _ => unbracketed_ofMonth settings agenda m

private theorem bracketed_ofAgenda :
    (ofAgenda settings agenda).flatMap bracketed =
      (((Month.between agenda.firstTouched? agenda.lastTouched?).flatMap Month.dates).filter
        fun d => !agenda.isEnabled d).map some := by
  rw [ofAgenda, List.flatMap_map, List.filter_flatMap, List.map_flatMap]
  exact List.flatMap_congr fun m _ => bracketed_ofMonth settings agenda m

private theorem mem_flatMap_dates_iff {d : Date} :
    d ∈ (Month.between agenda.firstTouched? agenda.lastTouched?).flatMap Month.dates ↔
      ∃ page ∈ ofAgenda settings agenda, Month.containing d = page.month := by
  rw [List.mem_flatMap]
  constructor
  · rintro ⟨m, hm, hd⟩
    exact ⟨ofMonth settings agenda m, List.mem_map_of_mem hm, Month.mem_dates_iff.mp hd⟩
  · rintro ⟨page, hpage, hd⟩
    obtain ⟨m, hm, rfl⟩ := List.mem_map.mp hpage
    exact ⟨m, hm, Month.mem_dates_iff.mpr hd⟩

variable {agenda} {touched : Set Date}

private theorem mem_between_of_isEnabled (h : agenda.Tracks touched) {d : Date}
    (hd : agenda.isEnabled d) :
    Month.containing d ∈ Month.between agenda.firstTouched? agenda.lastTouched? := by
  have hmem := h.mem_of_isEnabled hd
  obtain ⟨extent, hnow, hleast, hgreatest⟩ := h.isExtent.of_mem hmem
  rw [Agenda.firstTouched?, Agenda.lastTouched?, hnow, Option.map_some, Option.map_some,
    Month.mem_between_iff]
  exact ⟨Month.containing_le_containing (hleast.2 hmem),
    Month.containing_le_containing (hgreatest.2 hmem)⟩

private theorem filter_isEnabled_dates (h : agenda.Tracks touched) :
    ((Month.between agenda.firstTouched? agenda.lastTouched?).flatMap Month.dates).filter
      agenda.isEnabled = agenda.enabledDays := by
  have hascending := Month.pairwise_flatMap_dates
    (Month.pairwise_between agenda.firstTouched? agenda.lastTouched?)
  refine (hascending.filter _).eq_of_mem_iff agenda.pairwise_enabledDays ?_
  intro d
  rw [List.mem_filter, ← agenda.isEnabled_iff_mem, List.mem_flatMap]
  refine ⟨fun hd => hd.2, fun hd => ⟨?_, hd⟩⟩
  exact ⟨_, mem_between_of_isEnabled h hd, Month.mem_dates_iff.mpr rfl⟩

private theorem exists_between_of_mem_ofAgenda (h : agenda.Tracks touched) {page : Page}
    (hpage : page ∈ ofAgenda settings agenda) :
    ∃ first last d, agenda.firstTouched? = some first ∧ agenda.lastTouched? = some last ∧
      first ≤ d ∧ d ≤ last ∧ Month.containing d = page.month := by
  obtain ⟨m, hm, rfl⟩ := List.mem_map.mp hpage
  have hextent := h.isExtent
  rw [Agenda.firstTouched?, Agenda.lastTouched?] at *
  cases hnow : agenda.extent with
  | none =>
    rw [hnow] at hm
    exact absurd hm List.not_mem_nil
  | some extent =>
    rw [hnow] at hm hextent
    obtain ⟨d, hfirst, hlast, hmonth⟩ :=
      Month.exists_mem_of_mem_between (hextent.1.2 hextent.2.1) hm
    exact ⟨extent.least, extent.greatest, d, rfl, rfl, hfirst, hlast, hmonth⟩

/-- The lines of the weeks of all pages show the enabled days without brackets, in order, and the
other days of the listed months in brackets, each once. Every listed month has a day between the
first and the last touched one. -/
theorem ofAgenda_accounts (settings : Settings) (roster : Roster) (person : String)
    (stale : Agenda) :
    let agenda := roster.select person stale
    let pages := ofAgenda settings agenda
    pages.flatMap unbracketed = agenda.enabledDays.map some ∧
      (pages.flatMap unbracketed).length = agenda.enabledCount.toNat ∧
      (∃ days : List Date, pages.flatMap bracketed = days.map some ∧ days.Pairwise (· < ·) ∧
        ∀ d, d ∈ days ↔
          (∃ page ∈ pages, Month.containing d = page.month) ∧ ¬ agenda.isEnabled d) ∧
      ∀ page ∈ pages, ∃ first last d,
        agenda.firstTouched? = some first ∧ agenda.lastTouched? = some last ∧
          first ≤ d ∧ d ≤ last ∧ Month.containing d = page.month := by
  intro agenda pages
  have htracks : agenda.Tracks (Agenda.Action.select roster person).touches :=
    Agenda.Tracks.select stale roster person
  have hunbracketed : pages.flatMap unbracketed = agenda.enabledDays.map some := by
    rw [unbracketed_ofAgenda, filter_isEnabled_dates htracks]
  refine ⟨hunbracketed, ?_, ⟨_, bracketed_ofAgenda settings agenda, ?_, ?_⟩, ?_⟩
  · rw [hunbracketed, List.length_map, agenda.toNat_enabledCount]
  · exact (Month.pairwise_flatMap_dates (Month.pairwise_between _ _)).filter _
  · intro d
    rw [List.mem_filter, mem_flatMap_dates_iff settings]
    simp only [Bool.not_eq_true', Bool.not_eq_true]
    rfl
  · exact fun page => exists_between_of_mem_ofAgenda settings htracks

/-- New year alone is enabled, and January is printed with its other days in brackets. -/
theorem ofAgenda_new_year :
    let day : Date := ⟨Year.start 2020, by decide⟩
    let roster : Roster := ⟨[⟨"Ann", .inclusion, day, day, .empty⟩]⟩
    let pages := ofAgenda {} (roster.select "Ann" {})
    let january := ofMonth {} (roster.select "Ann" {}) (Month.containing day)
    january ∈ pages ∧ pages.flatMap unbracketed = [some day] ∧
      (pages.flatMap bracketed).length = 30 ∧
      ∃ d, day ≤ d ∧ d ≤ day ∧ Month.containing d = january.month := by
  intro day roster pages january
  have hextent : (roster.select "Ann" {}).extent = some ⟨day, day⟩ := by decide +kernel
  have henabled : (roster.select "Ann" {}).enabledDays = [day] := by decide +kernel
  have hpages : pages = [january] := by decide +kernel
  have hjanuary : january ∈ pages := by
    rw [hpages]
    exact List.mem_cons_self
  obtain ⟨hunbracketed, -, -, hmonths⟩ := ofAgenda_accounts {} roster "Ann" {}
  obtain ⟨first, last, d, hfirst, hlast, hlo, hhi, hmonth⟩ := hmonths january hjanuary
  rw [Agenda.firstTouched?, hextent] at hfirst
  rw [Agenda.lastTouched?, hextent] at hlast
  obtain rfl := Option.some.inj hfirst
  obtain rfl := Option.some.inj hlast
  refine ⟨hjanuary, ?_, by decide +kernel, d, hlo, hhi, hmonth⟩
  rw [henabled] at hunbracketed
  exact hunbracketed

end Page

end DayRoster
