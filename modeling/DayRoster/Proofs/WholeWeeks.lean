import DayRoster.Proofs.AgendaWrites
import Mathlib.Data.List.Sort

/-!
Ranges of whole weeks. Seven days in a row take each position of the week once, wherever they begin,
so a filter lets as many days of each week pass as it has positions below 7.
-/

set_option autoImplicit false

namespace DayRoster

/-- Seven positions in a row are those of a week in another order. -/
private theorem countP_week (p : Nat → Bool) (first : Nat) :
    (List.range 7).countP (fun k => p ((first + k) % 7)) = (List.range 7).countP p := by
  have hperm : ((List.range 7).map fun k => (first + k) % 7).Perm (List.range 7) := by
    refine (List.perm_ext_iff_of_nodup ?_ List.nodup_range).mpr fun n => ?_
    · refine List.nodup_range.map_on fun i hi j hj hij => ?_
      have hi := List.mem_range.mp hi
      have hj := List.mem_range.mp hj
      omega
    · simp only [List.mem_map, List.mem_range]
      constructor
      · rintro ⟨k, -, rfl⟩
        exact Nat.mod_lt _ (by decide)
      · intro hn
        exact ⟨(n + 7 - first % 7) % 7, by omega, by omega⟩
  calc (List.range 7).countP (fun k => p ((first + k) % 7))
      = ((List.range 7).map fun k => (first + k) % 7).countP p := List.countP_map.symm
    _ = (List.range 7).countP p := hperm.countP_eq p

private theorem countP_weeks (p : Nat → Bool) (first weeks : Nat) :
    (List.range (7 * weeks)).countP (fun k => p ((first + k) % 7)) =
      weeks * (List.range 7).countP p := by
  induction weeks with
  | zero => simp
  | succ weeks ih =>
    have hshift : ∀ k, (first + (7 * weeks + k)) % 7 = (first + k) % 7 := by omega
    rw [Nat.mul_succ, List.range_add, List.countP_append, ih, List.countP_map,
      Nat.succ_mul weeks]
    simp only [Function.comp_def, hshift, countP_week]

theorem WeekPattern.countP_admits (s : WeekPattern) :
    (List.range 7).countP s.admits = if s.isEmpty then 7 else s.positions.countP (· < 7) := by
  split
  · next hempty =>
    have hall : ∀ n ∈ List.range 7, s.admits n := fun n _ => by simp [admits, hempty]
    rw [List.countP_eq_length.mpr hall, List.length_range]
  · next hempty =>
    have hsame : (List.range 7).filter s.admits = s.positions.filter (· < 7) := by
      refine List.Pairwise.eq_of_mem_iff (List.pairwise_lt_range.filter _) (s.ascending.filter _) ?_
      intro n
      simp [admits, hempty, and_comm]
    rw [List.countP_eq_length_filter, List.countP_eq_length_filter, hsame]

theorem Date.exists_addDays?_eq_some {start stop : Date} (h : stop < lastSupported) {k : Nat}
    (hk : k < (stop.dayNumber + 1 - start.dayNumber).toNat) :
    ∃ d, start.addDays? k = some d ∧ d.succ?.isSome := by
  have hlo := start.supported.1
  have hhi := stop.supported.2
  let d : Date := ⟨start.dayNumber + k, by omega, by omega⟩
  refine ⟨d, ofDayNumber?_eq_some_iff.mpr rfl, ?_⟩
  rw [Option.isSome_iff_ne_none, ne_eq, succ?_eq_none_iff]
  have hle : d ≤ stop := by
    change start.dayNumber + k ≤ stop.dayNumber
    omega
  exact (hle.trans_lt h).ne

theorem Settings.map_position_range (settings : Settings) {start stop : Date}
    (h : stop < Date.lastSupported) :
    (Date.range start stop).map settings.position =
      (List.range (stop.dayNumber + 1 - start.dayNumber).toNat).map fun k =>
        (settings.position start + k) % 7 := by
  rw [Date.range, List.map_filterMap, ← List.filterMap_eq_map]
  refine List.filterMap_congr fun k hk => ?_
  obtain ⟨d, hd, hnext⟩ := Date.exists_addDays?_eq_some h (List.mem_range.mp hk)
  have hnumber := Date.ofDayNumber?_eq_some_iff.mp hd
  rw [hd, Option.filter_some, if_pos hnext]
  exact congrArg some (Date.position_weekday_of_dayNumber_eq hnumber settings.weekStart)

namespace Agenda

variable (settings : Settings) {start stop : Date}

theorem enabledDays_writeRange_fresh (start stop : Date) (filter : Option WeekPattern) :
    (writeRange { settings } start stop true filter).enabledDays =
      (Date.range start stop).filter (admits { settings } filter) := by
  refine List.Pairwise.eq_of_mem_iff (pairwise_enabledDays _)
    ((Date.pairwise_range start stop).filter _) fun d => ?_
  have hfresh : state? { settings } d = none := state?_clear { settings } d
  rw [mem_enabledDays_iff, state?_writeRange, hfresh, List.mem_filter, Date.mem_range_iff]
  simp

theorem touched_writeRange_fresh (enabled : Bool) (filter : Option WeekPattern)
    (hle : start ≤ stop) (hlast : stop < Date.lastSupported) :
    (writeRange { settings } start stop enabled filter).firstTouched? = some start ∧
      (writeRange { settings } start stop enabled filter).lastTouched? = some stop := by
  have htracks := (tracks_clear { settings }).writeRange enabled filter start stop
  rw [Set.union_empty] at htracks
  have hstart : Date.Covers start stop start := ⟨le_refl start, hle, (hle.trans_lt hlast).ne⟩
  have hstop : Date.Covers start stop stop := ⟨hle, le_refl stop, hlast.ne⟩
  obtain ⟨extent, hextent, hleast, hgreatest⟩ := htracks.isExtent.of_mem hstart
  have hfirst : extent.least = start := hleast.unique ⟨hstart, fun _ hd => hd.1⟩
  have hlast : extent.greatest = stop := hgreatest.unique ⟨hstop, fun _ hd => hd.2.1⟩
  constructor
  · exact (congrArg (Option.map Extent.least) hextent).trans (congrArg some hfirst)
  · exact (congrArg (Option.map Extent.greatest) hextent).trans (congrArg some hlast)

theorem toNat_enabledCount_writeRange_fresh (s : WeekPattern) (hlast : stop < Date.lastSupported) :
    (writeRange { settings } start stop true (some s)).enabledCount.toNat =
      (List.range (stop.dayNumber + 1 - start.dayNumber).toNat).countP
        fun k => s.admits ((settings.position start + k) % 7) := by
  have hadmits : admits { settings } (some s) = s.admits ∘ settings.position := rfl
  calc (writeRange { settings } start stop true (some s)).enabledCount.toNat
      = (Date.range start stop).countP (s.admits ∘ settings.position) := by
        rw [toNat_enabledCount, enabledDays_writeRange_fresh, hadmits, List.countP_eq_length_filter]
    _ = ((Date.range start stop).map settings.position).countP s.admits := List.countP_map.symm
    _ = _ := by
        rw [settings.map_position_range hlast, List.countP_map]
        rfl

/-- A number of weeks that are written to an agenda without days get that number of enabled days for
each position that the filter has in the week, or all days if the filter is empty. The touched days
are all days of the weeks in any case. -/
theorem writeRange_whole_weeks {start stop : Date} {weeks : Nat} (settings : Settings)
    (s : WeekPattern) (hweeks : 1 ≤ weeks) (hstop : start.addDays? (7 * weeks - 1) = some stop)
    (hlast : stop < Date.lastSupported) :
    let agenda := writeRange { settings } start stop true (some s)
    agenda.enabledCount.toNat =
        (if s.isEmpty then 7 * weeks else weeks * s.positions.countP (· < 7)) ∧
      agenda.firstTouched? = some start ∧ agenda.lastTouched? = some stop := by
  intro agenda
  have hnumber := Date.ofDayNumber?_eq_some_iff.mp hstop
  have hlength : (stop.dayNumber + 1 - start.dayNumber).toNat = 7 * weeks := by omega
  have hle : start ≤ stop := by
    change start.dayNumber ≤ stop.dayNumber
    omega
  refine ⟨?_, touched_writeRange_fresh settings true (some s) hle hlast⟩
  rw [toNat_enabledCount_writeRange_fresh settings s hlast, hlength, countP_weeks s.admits,
    s.countP_admits]
  split
  · exact Nat.mul_comm weeks 7
  · rfl

/-- Two weeks that hold a leap day, from 20 February 2020 on. No day has position 7. -/
theorem writeRange_leap_weeks :
    let start : Date := ⟨Year.start 2020 + 50, by decide⟩
    let stop : Date := ⟨Year.start 2020 + 63, by decide⟩
    let agenda := writeRange { settings := { weekStart := .monday } } start stop true
      (some (.ofList [5, 0, 7]))
    1 ≤ 2 ∧ start.addDays? (7 * (2 : Nat) - 1) = some stop ∧ stop < Date.lastSupported ∧
      agenda.enabledCount.toNat = 4 ∧ agenda.firstTouched? = some start ∧
      agenda.lastTouched? = some stop := by
  intro start stop agenda
  have hweeks : 1 ≤ 2 := by decide
  have hstop : start.addDays? (7 * (2 : Nat) - 1) = some stop := by decide
  have hlast : stop < Date.lastSupported := by decide
  exact ⟨hweeks, hstop, hlast,
    writeRange_whole_weeks { weekStart := .monday } (.ofList [5, 0, 7]) hweeks hstop hlast⟩

end Agenda

end DayRoster
