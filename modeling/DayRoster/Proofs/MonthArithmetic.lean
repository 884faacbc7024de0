import DayRoster.Proofs.MonthOrder
import Mathlib.Data.Set.Card

/-!
The arithmetic of months, with each step that could lack a result left open: the first day of a
month, the difference of two first days, the day with the number of that difference. No step lacks
its result in a supported month. The month of a day is the run of days from its first to its last,
and the next month begins on the day after that.
-/

set_option autoImplicit false

namespace DayRoster

namespace Date

def withDay? (d : Date) (day : Nat) : Option Date := ofYmd? d.year d.month day

/-- The length of the month of a day, if the first days of its month and of the next one exist and
their distance is a count of eight bits. -/
def daysInMonth? (d : Date) : Option Nat :=
  match d.monthLater? with
  | none => some 31
  | some later => do
    let first ← d.withDay? 1
    let next ← later.withDay? 1
    (next.dayNumber - first.dayNumber).toNat?.filter (· < 2 ^ 8)

end Date

namespace Month

def firstDay? (m : Month) : Option Date := Date.ofYmd? m.year m.number 1

def dayCount? (m : Month) : Option Nat := m.firstDay?.bind Date.daysInMonth?

def lastDay? (m : Month) : Option Date := do
  let count ← m.dayCount?
  let first ← m.firstDay?
  first.withDay? count

end Month

namespace Date

theorem withDay?_one (d : Date) :
    ∃ first, d.withDay? 1 = some first ∧ first.dayNumber = d.dayNumber - d.day + 1 := by
  have hyear := d.year_bounds
  have hpos := Year.monthLength_pos (Year.isLeap d.year) d.one_le_month d.month_le
  obtain ⟨first, hfirst⟩ := exists_ofYmd?_eq_some d.year d.month 1 hyear.1 hyear.2 d.one_le_month
    d.month_le (Nat.le_refl 1) (by omega)
  refine ⟨first, hfirst, ?_⟩
  obtain ⟨hyear, hmonth, hday⟩ := ofYmd?_eq_some_iff.mp hfirst
  rw [first.dayNumber_eq, d.dayNumber_eq, hyear, hmonth, hday]
  omega

theorem daysInMonth_bounds (d : Date) : 28 ≤ d.daysInMonth ∧ d.daysInMonth ≤ 31 := by
  rw [daysInMonth_eq]
  exact ⟨Year.monthLength_pos _ d.one_le_month d.month_le, Year.monthLength_le _ _⟩

theorem daysInMonth?_eq (d : Date) : d.daysInMonth? = some d.daysInMonth := by
  have hbounds := d.daysInMonth_bounds
  rw [daysInMonth] at hbounds ⊢
  rw [daysInMonth?]
  cases hlater : d.monthLater? with
  | none => rfl
  | some later =>
    obtain ⟨first, hfirst, hnumber⟩ := d.withDay?_one
    obtain ⟨next, hnext, hnumber'⟩ := later.withDay?_one
    simp only [hlater] at hbounds
    have hdistance : next.dayNumber - first.dayNumber =
        (((later.dayNumber - later.day) - (d.dayNumber - d.day)).toNat : Nat) := by omega
    simp only [hfirst, hnext, Option.bind_eq_bind, Option.bind_some, hdistance]
    exact Option.filter_eq_some_iff.mpr ⟨rfl, decide_eq_true (by omega)⟩

end Date

namespace Month

theorem firstDay?_eq (m : Month) : m.firstDay? = some m.firstDay :=
  Date.ofYmd?_eq_some_iff.mpr m.fields_firstDay

theorem dayCount?_eq (m : Month) : m.dayCount? = some m.dayCount := by
  rw [dayCount?, firstDay?_eq, Option.bind_some, Date.daysInMonth?_eq]
  rfl

theorem containing_eq_iff_between {d : Date} {m : Month} :
    containing d = m ↔ m.firstDay ≤ d ∧ d ≤ m.lastDay := by
  have hpos := m.dayCount_pos
  change _ ↔ m.firstDay.dayNumber ≤ d.dayNumber ∧
    d.dayNumber ≤ m.firstDay.dayNumber + (m.dayCount - 1 : Nat)
  constructor
  · rintro rfl
    have hd := dayNumber_eq_of_containing (Eq.refl (containing d))
    have hle := day_le_dayCount d
    have hone := d.one_le_day
    omega
  · rintro ⟨hlo, hhi⟩
    have hcount := m.dayCount_eq
    have hstart := m.dayNumber_firstDay
    have hday : d.dayNumber =
        Year.start m.year + Year.daysBefore (Year.isLeap m.year) m.number +
          ((d.dayNumber - m.firstDay.dayNumber).toNat + 1 : Nat) - 1 := by omega
    obtain ⟨hyear, hmonth, -⟩ :=
      Date.ymd_of_dayNumber_eq m.number_le (Nat.le_add_left 1 _) (by omega) hday
    exact containing_eq_iff.mpr ⟨hyear, hmonth⟩

theorem containing_lastDay (m : Month) : containing m.lastDay = m := by
  refine containing_eq_iff_between.mpr ⟨?_, le_refl _⟩
  change m.firstDay.dayNumber ≤ m.firstDay.dayNumber + (m.dayCount - 1 : Nat)
  omega

theorem day?_dayCount (m : Month) : m.day? m.dayCount = some m.lastDay := by
  refine day?_eq_some_iff.mpr ⟨m.containing_lastDay, ?_⟩
  have hnumber := dayNumber_eq_of_containing m.containing_lastDay
  have hlast : m.lastDay.dayNumber = m.firstDay.dayNumber + (m.dayCount - 1 : Nat) := rfl
  have hpos := m.dayCount_pos
  have hone := m.lastDay.one_le_day
  omega

theorem lastDay?_eq (m : Month) : m.lastDay? = some m.lastDay := by
  obtain ⟨hyear, hmonth, -⟩ := m.fields_firstDay
  simp only [lastDay?, dayCount?_eq, firstDay?_eq, Option.bind_eq_bind, Option.bind_some,
    Date.withDay?, hyear, hmonth]
  exact m.day?_dayCount

theorem length_dates (m : Month) : m.dates.length = m.dayCount := by
  have hlength := congrArg List.length m.map_day?
  rwa [List.length_map, List.length_map, List.length_range', eq_comm] at hlength

theorem ncard_days (m : Month) : {d | containing d = m}.ncard = m.dayCount := by
  have hnodup : m.dates.Nodup := m.pairwise_dates.imp ne_of_lt
  have hset : {d | containing d = m} = (m.dates.toFinset : Set Date) := by
    ext d
    rw [List.coe_toFinset]
    exact mem_dates_iff.symm
  rw [hset, Set.ncard_coe_finset, List.toFinset_card_of_nodup hnodup, length_dates]

theorem head?_dates (m : Month) : m.dates.head? = some m.firstDay := by
  have hfirst : m.day? 1 = some m.firstDay := m.firstDay?_eq
  have hpos := m.dayCount_pos
  have hhead := congrArg List.head? m.map_day?
  rw [List.head?_map, List.head?_map, List.head?_range', if_neg (by omega), Option.map_some,
    hfirst] at hhead
  exact Option.map_injective (Option.some_injective Date) hhead.symm

theorem getLast?_dates (m : Month) : m.dates.getLast? = some m.lastDay := by
  have hpos := m.dayCount_pos
  have hlast := congrArg List.getLast? m.map_day?
  rw [List.getLast?_map, List.getLast?_map, List.getLast?_range', if_neg (by omega),
    Option.map_some, Nat.add_sub_cancel_left, day?_dayCount] at hlast
  exact Option.map_injective (Option.some_injective Date) hlast.symm

theorem succ?_day? {m : Month} {k : Nat} (hlo : 1 ≤ k) (hhi : k < m.dayCount) :
    (m.day? k).bind Date.succ? = m.day? (k + 1) := by
  obtain ⟨d, hd⟩ := exists_day?_eq_some hlo hhi.le
  obtain ⟨next, hnext⟩ := exists_day?_eq_some (Nat.le_add_left 1 k) hhi
  obtain ⟨hmonth, hday⟩ := day?_eq_some_iff.mp hd
  obtain ⟨hmonth', hday'⟩ := day?_eq_some_iff.mp hnext
  have hnumber := dayNumber_eq_of_containing hmonth
  have hnumber' := dayNumber_eq_of_containing hmonth'
  rw [hd, hnext, Option.bind_some, Date.succ?_eq_some_iff]
  omega

theorem isChain_dates (m : Month) : m.dates.IsChain fun d next => d.succ? = some next := by
  have hchain : (m.dates.map some).IsChain fun d next => d.bind Date.succ? = next := by
    rw [← map_day?, List.range'_eq_map_range, List.map_map, List.isChain_map, List.isChain_range]
    intro k hk
    have hlt : 1 + k < m.dayCount := by omega
    exact succ?_day? (Nat.le_add_right 1 k) hlt
  exact (List.isChain_map some).mp hchain

theorem mem_days_iff {m : Month} {d : Date} :
    d ∈ m.days ↔ containing d = m ∧ d ≠ Date.lastSupported := by
  rw [days, Date.mem_range_iff, Date.Covers, containing_eq_iff_between, and_assoc]

theorem succ?_eq_some_iff {m next : Month} : m.succ? = some next ↔ next.index = m.index + 1 :=
  ofIndex?_eq_some_iff

theorem succ?_eq_none_iff {m : Month} : m.succ? = none ↔ m.year = 262142 ∧ m.number = 12 := by
  have hsupported := m.supported
  rw [succ?, ofIndex?, year, number]
  split
  · simp only [reduceCtorEq, false_iff]
    omega
  · simp only [true_iff]
    omega

theorem succ?_eq_monthLater (m : Month) : m.succ? = m.firstDay.monthLater?.map containing := by
  obtain ⟨hyear, hmonth, -⟩ := m.fields_firstDay
  cases hlater : m.firstDay.monthLater? with
  | none =>
    rw [Date.monthLater?_eq_none_iff, hyear, hmonth] at hlater
    exact succ?_eq_none_iff.mpr hlater
  | some later =>
    obtain ⟨-, hindex⟩ := Date.monthLater?_eq_some_iff.mp hlater
    rw [hyear, hmonth, year, number] at hindex
    refine succ?_eq_some_iff.mpr ?_
    change 12 * later.year + ((later.month : Int) - 1) = m.index + 1
    omega

theorem lastDay_lt_firstDay {m later : Month} (h : m < later) : m.lastDay < later.firstDay := by
  refine lt_of_containing_lt ?_
  rwa [containing_lastDay, containing_firstDay]

theorem lt_containing_of_lastDay_lt {m : Month} {d : Date} (h : m.lastDay < d) :
    m < containing d := by
  have hle := containing_le_containing h.le
  rw [containing_lastDay] at hle
  rcases Int.lt_or_eq_of_le hle with hlt | heq
  · exact hlt
  · have hbetween := containing_eq_iff_between.mp (Month.ext heq.symm)
    exact absurd h (not_lt.mpr hbetween.2)

/-- No month lies between that of the last day and that of the day after it: its first day would lie
between two consecutive days. -/
private theorem index_containing_after_lastDay {m : Month} {d : Date}
    (h : d.dayNumber = m.lastDay.dayNumber + 1) : (containing d).index = m.index + 1 := by
  have hlo : m.index < (containing d).index :=
    lt_containing_of_lastDay_lt (show m.lastDay.dayNumber < d.dayNumber by omega)
  have hhi : ¬ m.index + 1 < (containing d).index := by
    intro hgap
    have hsupported := (containing d).supported
    have hmsupported := m.supported
    let between : Month := ⟨m.index + 1, by omega⟩
    have hbehind : m.lastDay.dayNumber < between.firstDay.dayNumber :=
      lastDay_lt_firstDay (show m.index < m.index + 1 by omega)
    have hbefore : between.firstDay.dayNumber < d.dayNumber := by
      refine lt_of_containing_lt ?_
      rw [containing_firstDay]
      exact hgap
    omega
  omega

theorem succ?_eq_map_containing (m : Month) : m.succ? = m.lastDay.succ?.map containing := by
  cases hday : m.lastDay.succ? with
  | none =>
    have hend := Date.succ?_eq_none_iff.mp hday
    rw [Option.map_none, Option.eq_none_iff_forall_ne_some]
    intro next hnext
    have hindex := succ?_eq_some_iff.mp hnext
    have hlt := lastDay_lt_firstDay (show m.index < next.index by omega)
    exact absurd (hend ▸ next.firstDay.le_lastSupported) (not_le.mpr hlt)
  | some d =>
    have hnumber := Date.succ?_eq_some_iff.mp hday
    exact succ?_eq_some_iff.mpr (index_containing_after_lastDay hnumber)

/-- A walk through the days of a month leaves out the last day of the last supported month. -/
theorem dates_eq_days (m : Month) :
    m.dates = if m.succ? = none then m.days ++ [m.lastDay] else m.days := by
  have hlast : m.succ? = none ↔ m.lastDay = Date.lastSupported := by
    rw [succ?_eq_map_containing, Option.map_eq_none_iff, Date.succ?_eq_none_iff]
  have hdays := Date.pairwise_range m.firstDay m.lastDay
  split
  · next hnone =>
    have hend := hlast.mp hnone
    refine m.pairwise_dates.eq_of_mem_iff (List.pairwise_append.mpr ⟨hdays, ?_, ?_⟩) fun d => ?_
    · exact List.pairwise_singleton _ _
    · intro d hd e he
      obtain ⟨hmonth, hne⟩ := mem_days_iff.mp hd
      rw [List.mem_singleton.mp he]
      exact lt_of_le_of_ne (containing_eq_iff_between.mp hmonth).2 (hend ▸ hne)
    · rw [mem_dates_iff, List.mem_append, mem_days_iff, List.mem_singleton]
      constructor
      · intro hmonth
        exact (eq_or_ne d m.lastDay).symm.imp_left fun hne => ⟨hmonth, hend ▸ hne⟩
      · rintro (⟨hmonth, -⟩ | rfl)
        · exact hmonth
        · exact m.containing_lastDay
  · next hsome =>
    refine m.pairwise_dates.eq_of_mem_iff hdays fun d => ?_
    rw [mem_dates_iff, mem_days_iff, iff_self_and]
    rintro hmonth rfl
    have hle := (containing_eq_iff_between.mp hmonth).2
    exact hsome (hlast.mpr (le_antisymm m.lastDay.le_lastSupported hle))

theorem ofYearNumber?_eq_some_iff {year : Int} {number : Nat} {m : Month} :
    ofYearNumber? year number = some m ↔ m.year = year ∧ m.number = number := by
  rw [ofYearNumber?, Month.year, Month.number]
  split
  · rw [ofIndex?_eq_some_iff]
    omega
  · simp only [reduceCtorEq, false_iff]
    omega

theorem ofYearNumber?_eq_map_containing (year : Int) (number : Nat) :
    ofYearNumber? year number = (Date.ofYmd? year number 1).map containing := by
  refine Option.ext fun m => ?_
  rw [ofYearNumber?_eq_some_iff, Option.map_eq_some_iff]
  constructor
  · rintro ⟨rfl, rfl⟩
    exact ⟨m.firstDay, m.firstDay?_eq, m.containing_firstDay⟩
  · rintro ⟨d, hd, rfl⟩
    obtain ⟨rfl, rfl, -⟩ := Date.ofYmd?_eq_some_iff.mp hd
    have hfields := containing_eq_iff.mp (Eq.refl (containing d))
    exact ⟨hfields.1.symm, hfields.2.symm⟩

theorem daysInMonth_eq_dayCount (d : Date) : d.daysInMonth = (containing d).dayCount := by
  obtain ⟨hyear, hmonth⟩ := containing_eq_iff.mp (Eq.refl (containing d))
  rw [Date.daysInMonth_eq, dayCount_eq, hyear, hmonth]

/-- A month exists when its first day does, and its next month is that of the day one month after
the first. No step to its first day, its length and its last day lacks its result. The length is
the number of the days that have its year and its number, the last day is the greatest of them, and
they follow each other from the first to the last; a walk through them leaves out the last supported
day only. The next month is that of the day after the last, and only the last supported month has
none. The length is the same whichever of the days it is counted from. -/
theorem arithmetic_exact (m : Month) :
    let own := {d : Date | d.year = m.year ∧ d.month = m.number}
    (∀ year number, ofYearNumber? year number = (Date.ofYmd? year number 1).map containing) ∧
      m.succ? = m.firstDay.monthLater?.map containing ∧
      m.firstDay? = some m.firstDay ∧
      m.dayCount? = some m.dayCount ∧
      m.lastDay? = some m.lastDay ∧
      own.ncard = m.dayCount ∧
      IsGreatest own m.lastDay ∧
      (m.dates.head? = some m.firstDay ∧ m.dates.getLast? = some m.lastDay ∧
        m.dates.IsChain fun d next => d.succ? = some next) ∧
      m.days = Date.walk m.lastDay m.firstDay ∧
      m.dates = (if m.succ? = none then m.days ++ [m.lastDay] else m.days) ∧
      m.succ? = m.lastDay.succ?.map containing ∧
      (m.succ? = none ↔ m.year = 262142 ∧ m.number = 12) ∧
      ∀ d, d.daysInMonth? = some d.daysInMonth ∧ d.daysInMonth = (containing d).dayCount := by
  intro own
  have hown : own = {d | containing d = m} := Set.ext fun d => containing_eq_iff.symm
  refine ⟨ofYearNumber?_eq_map_containing, m.succ?_eq_monthLater, m.firstDay?_eq, m.dayCount?_eq,
    m.lastDay?_eq, ?_, ?_, ⟨m.head?_dates, m.getLast?_dates, m.isChain_dates⟩,
    (Date.walk_eq_range _ _).symm, m.dates_eq_days, m.succ?_eq_map_containing, succ?_eq_none_iff,
    ?_⟩
  · rw [hown, ncard_days]
  · rw [hown]
    exact ⟨m.containing_lastDay, fun d hd => (containing_eq_iff_between.mp hd).2⟩
  · intro d
    exact ⟨d.daysInMonth?_eq, daysInMonth_eq_dayCount d⟩

end Month

end DayRoster
