import DayRoster.Agenda
import DayRoster.Proofs.MonthArithmetic

/-!
The months that a span of days touches. They are found by walking from the month of the first day
to the next one and the next, up to the month of the last day, which may have no next one. No day
lies in a span whose last day comes before its first: a walk through it yields none, and a write to
it touches none. The months are found from whole months, so such a span has none only if its two
days are of different months.
-/

set_option autoImplicit false

namespace DayRoster

theorem Agenda.writeRange_of_lt (agenda : Agenda) {start stop : Date} (h : stop < start)
    (enabled : Bool) (filter : Option WeekPattern) :
    agenda.writeRange start stop enabled filter = agenda := by
  rw [writeRange, Date.range_of_lt h]
  rfl

namespace Month

theorem lt_iff_year_number {m later : Month} :
    m < later ↔ m.year < later.year ∨ m.year = later.year ∧ m.number < later.number := by
  change m.index < later.index ↔ _
  rw [year, year, number, number]
  omega

/-- The months from `m` on, each the next of the one before, as long as they do not pass `last`. -/
def walk (last m : Month) : List Month :=
  if hle : m ≤ last then
    match hnext : m.succ? with
    | none => [m]
    | some next =>
      have hshorter : (last.index + 1 - next.index).toNat < (last.index + 1 - m.index).toNat := by
        have hindex := succ?_eq_some_iff.mp hnext
        have hle : m.index ≤ last.index := hle
        omega
      m :: walk last next
  else []
termination_by (last.index + 1 - m.index).toNat

theorem range_of_lt {m last : Month} (h : last < m) : range m last = [] := by
  have hlt : last.index < m.index := h
  rw [range, show (last.index + 1 - m.index).toNat = 0 by omega]
  rfl

private theorem ofIndex?_index_add_zero (m : Month) : ofIndex? (m.index + (0 : Nat)) = some m :=
  ofIndex?_eq_some_iff.mpr (by omega)

private theorem eq_of_succ?_eq_none {m last : Month} (hle : m ≤ last) (h : m.succ? = none) :
    m = last := by
  have hle : m.index ≤ last.index := hle
  have hlast := last.supported
  have hnumbers := succ?_eq_none_iff.mp h
  rw [year, number] at hnumbers
  exact Month.ext (by omega)

theorem range_self (m : Month) : range m m = [m] := by
  rw [range, show (m.index + 1 - m.index).toNat = 1 by omega]
  exact List.filterMap_cons_some m.ofIndex?_index_add_zero

private theorem range_of_succ? {m next last : Month} (hle : m ≤ last) (h : m.succ? = some next) :
    range m last = m :: range next last := by
  have hle : m.index ≤ last.index := hle
  have hindex := succ?_eq_some_iff.mp h
  have hcount : (last.index + 1 - m.index).toNat = (last.index + 1 - next.index).toNat + 1 := by
    omega
  rw [range, hcount, List.range_succ_eq_map,
    List.filterMap_cons_some (f := fun k : Nat => ofIndex? (m.index + k)) m.ofIndex?_index_add_zero,
    List.filterMap_map]
  refine congrArg (m :: ·) (List.filterMap_congr fun k _ => congrArg ofIndex? ?_)
  rw [hindex, Nat.succ_eq_add_one]
  omega

theorem walk_eq_range (last m : Month) : walk last m = range m last := by
  fun_induction walk last m with
  | case1 m hle hnext => rw [← eq_of_succ?_eq_none hle hnext, range_self]
  | case2 m hle next hnext hshorter ih => rw [ih, range_of_succ? hle hnext]
  | case3 m hnot => exact (range_of_lt (Int.not_le.mp hnot)).symm

private theorem eq_of_mem_head?_walk {last m first : Month} (h : first ∈ (walk last m).head?) :
    first = m := by
  rw [walk] at h
  split at h
  · split at h
    · exact (Option.some.inj h).symm
    · exact (Option.some.inj h).symm
  · cases h

theorem isChain_walk (last m : Month) :
    (walk last m).IsChain fun m next => m.succ? = some next := by
  fun_induction walk last m with
  | case1 m hle hnext => exact List.isChain_singleton m
  | case2 m hle next hnext hshorter ih =>
    refine ih.cons fun first hfirst => ?_
    rw [eq_of_mem_head?_walk hfirst, hnext]
  | case3 m hnot => exact List.isChain_nil

theorem length_walk (last m : Month) :
    (walk last m).length = (last.index + 1 - m.index).toNat := by
  fun_induction walk last m with
  | case1 m hle hnext =>
    rw [← eq_of_succ?_eq_none hle hnext, List.length_singleton]
    omega
  | case2 m hle next hnext hshorter ih =>
    have hle : m.index ≤ last.index := hle
    have hindex := succ?_eq_some_iff.mp hnext
    rw [List.length_cons, ih]
    omega
  | case3 m hnot =>
    have hlt : last.index < m.index := Int.not_le.mp hnot
    rw [List.length_nil]
    omega

theorem between_eq_walk (min max : Date) :
    between (some min) (some max) = walk (containing max) (containing min) :=
  (walk_eq_range _ _).symm

theorem mem_between_iff_exists {min max : Date} (h : min ≤ max) {m : Month} :
    m ∈ between (some min) (some max) ↔ ∃ d, min ≤ d ∧ d ≤ max ∧ containing d = m := by
  constructor
  · exact exists_mem_of_mem_between h
  · rintro ⟨d, hlo, hhi, rfl⟩
    exact mem_between_iff.mpr ⟨containing_le_containing hlo, containing_le_containing hhi⟩

theorem length_between {min max : Date} (h : min ≤ max) :
    ((between (some min) (some max)).length : Int) =
      12 * (max.year - min.year) + (max.month - min.month) + 1 := by
  have hle : (containing min).index ≤ (containing max).index := containing_le_containing h
  have hmin : (containing min).index = 12 * min.year + (min.month - 1) := rfl
  have hmax : (containing max).index = 12 * max.year + (max.month - 1) := rfl
  rw [between_eq_walk, length_walk]
  omega

/-- The months of a span are found by walking from the month of its first day to that of its last.
They ascend by year and number, each is the next of the one before, and they are the months that
have a day of the span. Their number is the distance of the two months and one more. -/
theorem between_enumerates {min max : Date} (h : min ≤ max) :
    let months := between (some min) (some max)
    months = walk (containing max) (containing min) ∧
      (months.Pairwise fun m later =>
        m.year < later.year ∨ m.year = later.year ∧ m.number < later.number) ∧
      (months.IsChain fun m next => m.succ? = some next) ∧
      (∀ m, m ∈ months ↔ ∃ d, min ≤ d ∧ d ≤ max ∧ containing d = m) ∧
      (months.length : Int) = 12 * (max.year - min.year) + (max.month - min.month) + 1 := by
  intro months
  have hwalk : months = walk (containing max) (containing min) := between_eq_walk min max
  refine ⟨hwalk, ?_, hwalk ▸ isChain_walk _ _, fun m => mem_between_iff_exists h,
    length_between h⟩
  exact (pairwise_between _ _).imp lt_iff_year_number.mp

/-- The months from November of year -1 to the end of the calendar are listed, though the last of
them has no next one. -/
theorem between_crosses_zero_to_end :
    let min : Date := ⟨Year.start 0 - 32, by decide⟩
    let max := Date.lastSupported
    min ≤ max ∧ min.year = -1 ∧ (containing max).succ? = none ∧
      containing max ∈ between (some min) (some max) ∧
      (between (some min) (some max)).length = 3145718 := by
  intro min max
  have hle : min ≤ max := by decide
  have hmin : min.year = -1 ∧ min.month = 11 := by decide +kernel
  have hmax : max.year = 262142 ∧ max.month = 12 := by decide +kernel
  have hend : (containing max).succ? = none := by decide +kernel
  obtain ⟨-, -, -, hmem, hlength⟩ := between_enumerates hle
  rw [hmin.1, hmin.2, hmax.1, hmax.2] at hlength
  exact ⟨hle, hmin.1, hend, (hmem _).mpr ⟨max, hle, le_refl max, rfl⟩, by omega⟩

theorem containing_eq_containing_iff {d e : Date} :
    containing d = containing e ↔ d.year = e.year ∧ d.month = e.month := by
  obtain ⟨hyear, hmonth⟩ := containing_eq_iff.mp (Eq.refl (containing e))
  rw [containing_eq_iff, hyear, hmonth]

theorem between_of_containing_lt {min max : Date} (h : containing max < containing min) :
    between (some min) (some max) = [] :=
  range_of_lt h

theorem between_of_containing_eq {min max : Date} (h : containing min = containing max) :
    between (some min) (some max) = [containing min] := by
  rw [between, ← h, range_self]

/-- A reversed span has no day, and a write to it changes nothing. It has no month either, unless
its two days are of one month, which is then listed. -/
theorem between_reversed {min max : Date} (h : max < min) :
    Date.range min max = [] ∧
      (∀ (agenda : Agenda) (enabled : Bool) (filter : Option WeekPattern),
        agenda.writeRange min max enabled filter = agenda) ∧
      between (some min) (some max) =
        if min.year = max.year ∧ min.month = max.month then [containing min] else [] := by
  refine ⟨Date.range_of_lt h, fun agenda => agenda.writeRange_of_lt h, ?_⟩
  split
  · next hsame => exact between_of_containing_eq (containing_eq_containing_iff.mpr hsame)
  · next hother =>
    have hne : containing max ≠ containing min :=
      fun heq => hother (containing_eq_containing_iff.mp heq.symm)
    have hle : (containing max).index ≤ (containing min).index := containing_le_containing h.le
    have hlt : (containing max).index < (containing min).index :=
      Int.lt_iff_le_and_ne.mpr ⟨hle, fun hindex => hne (Month.ext hindex)⟩
    exact between_of_containing_lt hlt

/-- From New Year's Day back to the day before, there is no month. -/
theorem between_reversed_at_new_year :
    let min : Date := ⟨Year.start 2021, by decide⟩
    let max : Date := ⟨Year.start 2021 - 1, by decide⟩
    max < min ∧ between (some min) (some max) = [] := by
  intro min max
  have hreversed : max < min := by decide
  obtain ⟨-, -, hmonths⟩ := between_reversed hreversed
  have hyears : ¬ (min.year = max.year ∧ min.month = max.month) := by decide +kernel
  rw [if_neg hyears] at hmonths
  exact ⟨hreversed, hmonths⟩

/-- From the last of May back to the first, no day is walked to, and May is listed. -/
theorem between_reversed_in_may :
    let min : Date := ⟨Year.start 2020 + 151, by decide⟩
    let max : Date := ⟨Year.start 2020 + 121, by decide⟩
    Date.ofYmd? 2020 5 31 = some min ∧ Date.ofYmd? 2020 5 1 = some max ∧ max < min ∧
      Date.range min max = [] ∧ between (some min) (some max) = [containing min] ∧
      ¬ ∀ first last : Date, last < first → between (some first) (some last) = [] := by
  intro min max
  have hreversed : max < min := by decide
  have hmay : between (some min) (some max) = [containing min] := by decide +kernel
  refine ⟨by decide +kernel, by decide +kernel, hreversed, Date.range_of_lt hreversed, hmay, ?_⟩
  intro hnone
  exact List.cons_ne_nil _ _ (hmay.symm.trans (hnone min max hreversed))

end Month

end DayRoster
