import DayRoster.Calendar.Date
import Mathlib.Data.List.Sort
import Mathlib.Order.Defs.LinearOrder

/-!
The order of dates, and the days that a walk from one date to another yields: all days between the
two, the ends included, but for the last supported day, which has no next one. `Date.range` lists
them in closed form, and `Date.walk` steps from each day to the next.
-/

set_option autoImplicit false

namespace DayRoster.Date

private theorem compare_eq (a b : Date) : compare a b = compareOfLessAndEq a b := by
  have heq : a.dayNumber = b.dayNumber ↔ a = b := Date.ext_iff.symm
  change compareOfLessAndEq a.dayNumber b.dayNumber = _
  unfold compareOfLessAndEq
  simp only [heq]
  rfl

instance : LinearOrder Date where
  le_refl a := Int.le_refl a.dayNumber
  le_trans _ _ _ := Int.le_trans
  lt_iff_le_not_ge _ _ := Int.lt_iff_le_and_not_ge
  le_antisymm _ _ hab hba := Date.ext (Int.le_antisymm hab hba)
  le_total a b := Int.le_total a.dayNumber b.dayNumber
  min_def _ _ := rfl
  max_def _ _ := rfl
  toDecidableLE := inferInstance
  compare_eq_compareOfLessAndEq := compare_eq

/-- 31 December of year 262142. -/
def lastSupported : Date := ⟨Year.start 262143 - 1, by decide⟩

theorem le_lastSupported (d : Date) : d ≤ lastSupported := by
  have hsupported := d.supported.2
  change d.dayNumber ≤ Year.start 262143 - 1
  omega

/-- Does a walk from `start` to `stop` come to a day? -/
def Covers (start stop d : Date) : Prop := start ≤ d ∧ d ≤ stop ∧ d ≠ lastSupported

instance (start stop d : Date) : Decidable (Covers start stop d) :=
  inferInstanceAs (Decidable (start ≤ d ∧ d ≤ stop ∧ d ≠ lastSupported))

theorem succ?_eq_none_iff {d : Date} : d.succ? = none ↔ d = lastSupported := by
  have hlo := d.supported.1
  have hhi := d.supported.2
  rw [succ?, addDays?, ofDayNumber?_eq_none_iff, Date.ext_iff]
  change _ ↔ d.dayNumber = Year.start 262143 - 1
  omega

theorem succ?_eq_some_iff {d next : Date} :
    d.succ? = some next ↔ next.dayNumber = d.dayNumber + 1 :=
  ofDayNumber?_eq_some_iff

theorem mem_range_iff {start stop d : Date} : d ∈ range start stop ↔ Covers start stop d := by
  change _ ↔ start.dayNumber ≤ d.dayNumber ∧ d.dayNumber ≤ stop.dayNumber ∧ _
  simp only [range, List.mem_filterMap, List.mem_range, Option.filter_eq_some_iff, addDays?,
    ofDayNumber?_eq_some_iff, Option.isSome_iff_ne_none, ne_eq, succ?_eq_none_iff]
  constructor
  · rintro ⟨k, hk, hd, hlast⟩
    exact ⟨by omega, by omega, hlast⟩
  · rintro ⟨hlo, hhi, hlast⟩
    exact ⟨(d.dayNumber - start.dayNumber).toNat, by omega, by omega, hlast⟩

theorem pairwise_range (start stop : Date) : (range start stop).Pairwise (· < ·) := by
  refine List.pairwise_filterMap.mpr (List.pairwise_lt_range.imp ?_)
  intro j k hjk d hd e he
  have hnumber := ofDayNumber?_eq_some_iff.mp (Option.filter_eq_some_iff.mp hd).1
  have hnumber' := ofDayNumber?_eq_some_iff.mp (Option.filter_eq_some_iff.mp he).1
  change d.dayNumber < e.dayNumber
  omega

variable {start stop d next : Date}

theorem range_of_lt (h : stop < start) : range start stop = [] := by
  rw [List.eq_nil_iff_forall_not_mem]
  intro d hd
  obtain ⟨hlo, hhi, -⟩ := mem_range_iff.mp hd
  exact absurd h (not_lt.mpr (hlo.trans hhi))

/-- The days from `d` on, each the next of the one before, as long as they do not pass `stop`. A
walk steps on before it yields a day, so it ends in front of the last supported day. -/
def walk (stop d : Date) : List Date :=
  match hnext : d.succ? with
  | none => []
  | some next =>
    have hshorter : (Year.start 262143 - next.dayNumber).toNat <
        (Year.start 262143 - d.dayNumber).toNat := by
      have hnumber := succ?_eq_some_iff.mp hnext
      have hsupported := next.supported
      omega
    if d ≤ stop then d :: walk stop next else []
termination_by (Year.start 262143 - d.dayNumber).toNat

private theorem range_lastSupported (stop : Date) : range lastSupported stop = [] := by
  rw [List.eq_nil_iff_forall_not_mem]
  intro d hd
  obtain ⟨hlo, -, hne⟩ := mem_range_iff.mp hd
  exact hne (le_antisymm d.le_lastSupported hlo)

private theorem covers_iff_of_succ? (hle : d ≤ stop) (h : d.succ? = some next) {e : Date} :
    Covers d stop e ↔ e = d ∨ Covers next stop e := by
  have hnumber := succ?_eq_some_iff.mp h
  have hnot : d ≠ lastSupported := fun hlast => by
    rw [succ?_eq_none_iff.mpr hlast] at h
    cases h
  have hstep : d ≤ e ↔ e = d ∨ next ≤ e := by
    rw [Date.ext_iff]
    change d.dayNumber ≤ e.dayNumber ↔ _ ∨ next.dayNumber ≤ e.dayNumber
    omega
  rw [Covers, Covers, hstep, or_and_right]
  refine or_congr_left (and_iff_left_of_imp ?_)
  rintro rfl
  exact ⟨hle, hnot⟩

private theorem range_of_succ? (hle : d ≤ stop) (h : d.succ? = some next) :
    range d stop = d :: range next stop := by
  have hascending : (d :: range next stop).Pairwise (· < ·) := by
    refine List.pairwise_cons.mpr ⟨fun e he => ?_, pairwise_range next stop⟩
    have hnumber := succ?_eq_some_iff.mp h
    have hle : next.dayNumber ≤ e.dayNumber := (mem_range_iff.mp he).1
    change d.dayNumber < e.dayNumber
    omega
  refine (pairwise_range d stop).eq_of_mem_iff hascending fun e => ?_
  rw [List.mem_cons, mem_range_iff, mem_range_iff, covers_iff_of_succ? hle h]

theorem walk_eq_range (stop d : Date) : walk stop d = range d stop := by
  fun_induction walk stop d with
  | case1 d hnext => rw [succ?_eq_none_iff.mp hnext, range_lastSupported]
  | case2 d next hnext hshorter hle ih => rw [ih, range_of_succ? hle hnext]
  | case3 d next hnext hshorter hnot => exact (range_of_lt (not_le.mp hnot)).symm

end DayRoster.Date
