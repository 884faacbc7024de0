import DayRoster.Calendar.Month
import DayRoster.Proofs.DateRange
import Mathlib.Data.List.Range

/-!
Months as runs of days. The days of a month are those that it contains, all days of a month come
before those of a later one, and the months between two dates contain all days between the two.
-/

set_option autoImplicit false

namespace DayRoster.Month

theorem containing_eq_iff {d : Date} {m : Month} :
    containing d = m ↔ d.year = m.year ∧ d.month = m.number := by
  have hlo := d.one_le_month
  have hhi := d.month_le
  rw [Month.ext_iff, year, number]
  change 12 * d.year + ((d.month : Int) - 1) = m.index ↔ _
  omega

theorem day?_eq_some_iff {m : Month} {k : Nat} {d : Date} :
    m.day? k = some d ↔ containing d = m ∧ d.day = k := by
  rw [day?, Date.ofYmd?_eq_some_iff, containing_eq_iff, and_assoc]

theorem exists_day?_eq_some {m : Month} {k : Nat} (hlo : 1 ≤ k) (hhi : k ≤ m.dayCount) :
    ∃ d, m.day? k = some d := by
  have hyear := m.year_bounds
  rw [dayCount_eq] at hhi
  exact Date.exists_ofYmd?_eq_some m.year m.number k hyear.1 hyear.2 m.one_le_number m.number_le
    hlo hhi

theorem day_le_dayCount (d : Date) : d.day ≤ (containing d).dayCount := by
  obtain ⟨hyear, hmonth⟩ := containing_eq_iff.mp (Eq.refl (containing d))
  rw [dayCount_eq, ← hyear, ← hmonth]
  exact d.day_le

theorem dayNumber_eq_of_containing {d : Date} {m : Month} (h : containing d = m) :
    d.dayNumber = m.firstDay.dayNumber + (d.day - 1 : Nat) := by
  obtain ⟨hyear, hmonth⟩ := containing_eq_iff.mp h
  have hday := d.one_le_day
  rw [dayNumber_firstDay, d.dayNumber_eq, hyear, hmonth]
  omega

private theorem firstDay_add_dayCount_le {m later : Month} (h : m < later) :
    m.firstDay.dayNumber + m.dayCount ≤ later.firstDay.dayNumber := by
  have hindex : m.index < later.index := h
  rw [dayNumber_firstDay, dayNumber_firstDay, dayCount_eq]
  -- Within a year the days before the months count up, and else the years do.
  by_cases hyear : m.year = later.year
  · have hnumber : m.number + 1 ≤ later.number := by
      rw [year, year] at hyear
      rw [number, number]
      omega
    have hmono := Year.daysBefore_mono (Year.isLeap m.year) hnumber
    rw [Year.daysBefore] at hmono
    rw [← hyear]
    omega
  · have hlt : m.year + 1 ≤ later.year := by
      rw [year, year] at hyear ⊢
      omega
    have hmono := Year.start_mono hlt
    have hle := m.daysBefore_add_monthLength_le
    rw [Year.start_add_one] at hmono
    omega

theorem lt_of_containing_lt {d e : Date} (h : containing d < containing e) : d < e := by
  have hle := firstDay_add_dayCount_le h
  have hd := dayNumber_eq_of_containing (Eq.refl (containing d))
  have he := dayNumber_eq_of_containing (Eq.refl (containing e))
  have hpos := d.one_le_day
  have hcount := day_le_dayCount d
  change d.dayNumber < e.dayNumber
  omega

theorem containing_le_containing {d e : Date} (h : d ≤ e) : containing d ≤ containing e := by
  by_contra hlt
  have hindex : (containing e).index < (containing d).index := Int.not_le.mp hlt
  exact absurd (lt_of_containing_lt hindex) (not_lt.mpr h)

theorem containing_firstDay (m : Month) : containing m.firstDay = m := by
  obtain ⟨hyear, hmonth, -⟩ := m.fields_firstDay
  exact containing_eq_iff.mpr ⟨hyear, hmonth⟩

theorem firstDay_le_iff {m : Month} {d : Date} : m.firstDay ≤ d ↔ m ≤ containing d := by
  constructor
  · intro h
    have hle := containing_le_containing h
    rwa [containing_firstDay] at hle
  · intro h
    rcases Int.lt_or_eq_of_le h with hlt | heq
    · refine (lt_of_containing_lt ?_).le
      rw [containing_firstDay]
      exact hlt
    · have hd := dayNumber_eq_of_containing (Month.ext heq.symm)
      change m.firstDay.dayNumber ≤ d.dayNumber
      omega

/-- All days of a month. Unlike a walk, this does not leave out the last supported day. -/
def dates (m : Month) : List Date := (List.range' 1 m.dayCount).filterMap m.day?

theorem mem_dates_iff {m : Month} {d : Date} : d ∈ m.dates ↔ containing d = m := by
  rw [dates, List.mem_filterMap]
  constructor
  · rintro ⟨k, -, hk⟩
    exact (day?_eq_some_iff.mp hk).1
  · rintro rfl
    have hlo := d.one_le_day
    have hhi := day_le_dayCount d
    refine ⟨d.day, ?_, day?_eq_some_iff.mpr ⟨rfl, rfl⟩⟩
    rw [List.mem_range'_1]
    omega

theorem map_day? (m : Month) :
    (List.range' 1 m.dayCount).map m.day? = m.dates.map some := by
  have hall : ∀ days : List Nat, (∀ k ∈ days, ∃ d, m.day? k = some d) →
      days.map m.day? = (days.filterMap m.day?).map some := by
    intro days h
    induction days with
    | nil => rfl
    | cons k days ih =>
      obtain ⟨d, hd⟩ := h k List.mem_cons_self
      rw [List.map_cons, List.filterMap_cons_some hd, List.map_cons, hd,
        ih fun j hj => h j (List.mem_cons_of_mem k hj)]
  refine hall _ fun k hk => ?_
  obtain ⟨hlo, hhi⟩ := List.mem_range'_1.mp hk
  exact exists_day?_eq_some hlo (by omega)

theorem pairwise_dates (m : Month) : m.dates.Pairwise (· < ·) := by
  refine List.pairwise_filterMap.mpr ((List.pairwise_lt_range' 1).imp ?_)
  intro j k hjk d hd e he
  obtain ⟨hmonth, rfl⟩ := day?_eq_some_iff.mp hd
  obtain ⟨hmonth', rfl⟩ := day?_eq_some_iff.mp he
  have hd := dayNumber_eq_of_containing hmonth
  have he := dayNumber_eq_of_containing hmonth'
  have hpos := d.one_le_day
  change d.dayNumber < e.dayNumber
  omega

theorem ofIndex?_eq_some_iff {n : Int} {m : Month} : ofIndex? n = some m ↔ m.index = n := by
  rw [ofIndex?]
  split
  · next h =>
    rw [Option.some.injEq, Month.ext_iff]
    exact eq_comm
  · next h =>
    simp only [reduceCtorEq, false_iff]
    rintro rfl
    exact h m.supported

theorem mem_range_iff {first last m : Month} : m ∈ range first last ↔ first ≤ m ∧ m ≤ last := by
  change _ ↔ first.index ≤ m.index ∧ m.index ≤ last.index
  simp only [range, List.mem_filterMap, List.mem_range, ofIndex?_eq_some_iff]
  constructor
  · rintro ⟨k, hk, hm⟩
    omega
  · rintro ⟨hlo, hhi⟩
    exact ⟨(m.index - first.index).toNat, by omega, by omega⟩

theorem pairwise_range (first last : Month) : (range first last).Pairwise (· < ·) := by
  refine List.pairwise_filterMap.mpr (List.pairwise_lt_range.imp ?_)
  intro j k hjk m hm later hlater
  have hindex := ofIndex?_eq_some_iff.mp hm
  have hindex' := ofIndex?_eq_some_iff.mp hlater
  change m.index < later.index
  omega

theorem mem_between_iff {min max : Date} {m : Month} :
    m ∈ between (some min) (some max) ↔ containing min ≤ m ∧ m ≤ containing max :=
  mem_range_iff

theorem pairwise_between (min max : Option Date) : (between min max).Pairwise (· < ·) := by
  cases min with
  | none => exact List.Pairwise.nil
  | some min =>
    cases max with
    | none => exact List.Pairwise.nil
    | some max => exact pairwise_range _ _

theorem exists_mem_of_mem_between {min max : Date} {m : Month} (h : min ≤ max)
    (hm : m ∈ between (some min) (some max)) : ∃ d, min ≤ d ∧ d ≤ max ∧ containing d = m := by
  obtain ⟨hlo, hhi⟩ := mem_between_iff.mp hm
  rcases le_total min m.firstDay with hmin | hmin
  · exact ⟨m.firstDay, hmin, firstDay_le_iff.mpr hhi, m.containing_firstDay⟩
  · have hle := firstDay_le_iff.mp hmin
    exact ⟨min, le_refl min, h, Month.ext (Int.le_antisymm hlo hle)⟩

theorem pairwise_flatMap_dates {months : List Month} (h : months.Pairwise (· < ·)) :
    (months.flatMap dates).Pairwise (· < ·) := by
  refine List.pairwise_flatMap.mpr ⟨fun m _ => m.pairwise_dates, h.imp ?_⟩
  intro m later hlt d hd e he
  rw [mem_dates_iff] at hd he
  subst hd he
  exact lt_of_containing_lt hlt

end DayRoster.Month
