import DayRoster.Proofs.MonthOrder
import Mathlib.Algebra.Order.Floor.Div
import Mathlib.Data.List.Nodup
import Mathlib.Data.List.Range

/-!
The rows of a month. Put one after the other, they are the empty cells before the first day, the
days in order, and the empty cells behind the last day, which do not fill a row, so they are what is
cut off those cells seven at a time. Each day stands in the column of its day of the week.
-/

set_option autoImplicit false

namespace DayRoster.Month

private theorem flatten_rows {α : Type} (f : Nat → α) (width count : Nat) :
    ((List.range count).map fun row =>
      (List.range width).map fun column => f (width * row + column)).flatten =
      (List.range (width * count)).map f := by
  induction count with
  | zero => rfl
  | succ count ih =>
    rw [List.range_succ, List.map_append, List.flatten_append, ih, Nat.mul_succ, List.range_add,
      List.map_append, List.map_map]
    simp only [List.map_cons, List.map_nil, List.flatten_cons, List.flatten_nil, List.append_nil,
      Function.comp_def]

private theorem map_range_window (gaps count rest : Nat) :
    (List.range (gaps + count + rest)).map (fun cell =>
      if gaps ≤ cell ∧ cell < gaps + count then some (cell + 1 - gaps) else none) =
      List.replicate gaps none ++ (List.range' 1 count).map some ++ List.replicate rest none := by
  rw [List.range_add, List.range_add, List.map_append, List.map_append, List.map_map,
    List.map_map]
  congr 1
  · congr 1
    · refine List.eq_replicate_iff.mpr ⟨by simp, fun cell hcell => ?_⟩
      obtain ⟨k, hk, rfl⟩ := List.mem_map.mp hcell
      have hlt := List.mem_range.mp hk
      exact if_neg (by omega)
    · rw [List.range'_eq_map_range, List.map_map]
      refine List.map_congr_left fun k hk => ?_
      have hwindow : gaps ≤ gaps + k ∧ gaps + k < gaps + count := by
        have hlt := List.mem_range.mp hk
        omega
      have hday : gaps + k + 1 - gaps = 1 + k := by omega
      exact (if_pos hwindow).trans (congrArg some hday)
  · refine List.eq_replicate_iff.mpr ⟨by simp, fun cell hcell => ?_⟩
    obtain ⟨k, hk, rfl⟩ := List.mem_map.mp hcell
    have hbehind : ¬ (gaps ≤ gaps + count + k ∧ gaps + count + k < gaps + count) := by omega
    exact if_neg hbehind

theorem length_of_mem_weeks {m : Month} {weekStart : Weekday} {row : List (Option Nat)}
    (h : row ∈ m.weeks weekStart) : row.length = 7 := by
  obtain ⟨_, -, rfl⟩ := List.mem_map.mp h
  rw [List.length_map, List.length_range]

theorem length_weeks (m : Month) (weekStart : Weekday) :
    (m.weeks weekStart).length =
      (Weekday.position weekStart m.firstDay.weekday + m.dayCount) ⌈/⌉ 7 := by
  rw [weeks, List.length_map, List.length_range, Nat.ceilDiv_eq_add_pred_div]
  rfl

/-- The cells of a month up to its last day: empty ones before the first day, and the days. -/
def cells (m : Month) (weekStart : Weekday) : List (Option Nat) :=
  List.replicate (Weekday.position weekStart m.firstDay.weekday) none ++
    (List.range' 1 m.dayCount).map some

theorem flatten_weeks (m : Month) (weekStart : Weekday) :
    ∃ rest < 7, (m.weeks weekStart).flatten = m.cells weekStart ++ List.replicate rest none := by
  let gaps := Weekday.position weekStart m.firstDay.weekday
  let count := m.dayCount
  -- The rows hold as many cells as the window with less than a row behind it.
  have hcells : 7 * ((gaps + count + 6) / 7) =
      gaps + count + (7 * ((gaps + count + 6) / 7) - (gaps + count)) := by omega
  refine ⟨7 * ((gaps + count + 6) / 7) - (gaps + count), by omega, ?_⟩
  rw [cells, ← map_range_window, ← hcells, ← flatten_rows]
  rfl

/-- Rows of seven cells, cut off the front. Empty cells fill up the last row. -/
def inRows : List (Option Nat) → List (List (Option Nat))
  | [] => []
  | cell :: rest =>
    have hshorter : (rest.drop 6).length < (cell :: rest).length := by
      rw [List.length_drop, List.length_cons]
      omega
    ((cell :: rest).take 7).rightpad 7 none :: inRows (rest.drop 6)
termination_by cells => cells.length

private theorem eq_inRows_of_flatten {rows : List (List (Option Nat))} {cells : List (Option Nat)}
    {rest : Nat} (hrest : rest < 7) (hwidth : ∀ row ∈ rows, row.length = 7)
    (h : rows.flatten = cells ++ List.replicate rest none) : rows = inRows cells := by
  induction rows generalizing cells rest with
  | nil =>
    obtain ⟨rfl, -⟩ := List.append_eq_nil_iff.mp h.symm
    rw [inRows]
  | cons row rows ih =>
    have hseven : row.length = 7 := hwidth row List.mem_cons_self
    have hrow : row = (cells ++ List.replicate rest none).take 7 := by
      rw [← h, List.flatten_cons, List.take_left' hseven]
    have hrows : rows.flatten = (cells ++ List.replicate rest none).drop 7 := by
      rw [← h, List.flatten_cons, List.drop_left' hseven]
    rw [List.take_append, List.take_replicate] at hrow
    rw [List.drop_append, List.drop_replicate] at hrows
    have hcount := congrArg List.length hrow
    rw [hseven, List.length_append, List.length_take, List.length_replicate] at hcount
    have hlater := ih (by omega)
      (fun other hother => hwidth other (List.mem_cons_of_mem row hother)) hrows
    cases cells with
    | nil =>
      rw [List.length_nil] at hcount
      omega
    | cons cell tail =>
      have hpadded : min (7 - (cell :: tail).length) rest = 7 - ((cell :: tail).take 7).length := by
        rw [List.length_take]
        omega
      rw [inRows, hlater, hrow, hpadded]
      rfl

theorem weeks_eq_inRows (m : Month) (weekStart : Weekday) :
    m.weeks weekStart = inRows (m.cells weekStart) := by
  obtain ⟨rest, hrest, hcells⟩ := m.flatten_weeks weekStart
  exact eq_inRows_of_flatten hrest (fun _ => length_of_mem_weeks) hcells

theorem days_of_weeks (m : Month) (weekStart : Weekday) :
    (m.weeks weekStart).flatten.filterMap id = List.range' 1 m.dayCount := by
  obtain ⟨rest, -, hcells⟩ := m.flatten_weeks weekStart
  have hempty : ∀ n, (List.replicate n none).filterMap (id : Option Nat → Option Nat) = [] := by
    intro n
    simp
  rw [hcells, cells, List.filterMap_append, List.filterMap_append, hempty, hempty, List.filterMap_map,
    List.nil_append, List.append_nil]
  exact List.filterMap_some

theorem count_flatten_weeks (m : Month) (weekStart : Weekday) (k : Nat) :
    (m.weeks weekStart).flatten.count (some k) = if 1 ≤ k ∧ k ≤ m.dayCount then 1 else 0 := by
  obtain ⟨rest, -, hcells⟩ := m.flatten_weeks weekStart
  have hempty : ∀ n, (List.replicate n none).count (some k) = 0 := by
    intro n
    rw [List.count_eq_zero, List.mem_replicate]
    exact fun h => Option.some_ne_none k h.2
  have hmem : k ∈ List.range' 1 m.dayCount ↔ 1 ≤ k ∧ k ≤ m.dayCount := by
    rw [List.mem_range'_1]
    omega
  have hnodup : (List.range' 1 m.dayCount).Nodup := List.nodup_range' 1
  rw [hcells, cells, List.count_append, List.count_append, hempty, hempty, Nat.zero_add, Nat.add_zero,
    List.count_map_of_injective _ _ (Option.some_injective Nat), hnodup.count]
  simp only [hmem]

def cellAt? (m : Month) (weekStart : Weekday) (row column : Nat) : Option (Option Nat) :=
  (m.weeks weekStart)[row]?.bind fun cells => cells[column]?

variable {m : Month} {weekStart : Weekday}

private theorem getElem?_range_eq_some_iff {n i k : Nat} :
    (List.range n)[i]? = some k ↔ i < n ∧ k = i := by
  rw [List.getElem?_eq_some_iff]
  simp only [List.length_range, List.getElem_range, exists_prop, eq_comm]

theorem cellAt?_eq_day_iff {row column k : Nat} :
    m.cellAt? weekStart row column = some (some k) ↔
      column < 7 ∧ 1 ≤ k ∧ k ≤ m.dayCount ∧
        7 * row + column + 1 = Weekday.position weekStart m.firstDay.weekday + k := by
  simp only [cellAt?, weeks, List.getElem?_map, Option.bind_eq_some_iff, Option.map_eq_some_iff,
    getElem?_range_eq_some_iff, exists_exists_and_eq_and, Option.ite_none_right_eq_some,
    Option.some.injEq]
  constructor
  · rintro ⟨_, ⟨hrow, rfl⟩, _, ⟨hcolumn, rfl⟩, hwindow, hday⟩
    omega
  · rintro ⟨hcolumn, hlo, hhi, hplace⟩
    exact ⟨row, ⟨by omega, rfl⟩, column, ⟨hcolumn, rfl⟩, by omega, by omega⟩

theorem exists_day_behind_iff {week : List (Option Nat)} {row column k : Nat}
    (hweek : (m.weeks weekStart)[row]? = some week) (hk : week[column]? = some (some k)) :
    (∃ later ∈ week.drop (column + 1), later ≠ none) ↔ ¬ (column = 6 ∨ k = m.dayCount) := by
  have hplaces : ∀ i j, week[i]? = some (some j) ↔ i < 7 ∧ 1 ≤ j ∧ j ≤ m.dayCount ∧
      7 * row + i + 1 = Weekday.position weekStart m.firstDay.weekday + j := by
    intro i j
    rw [← cellAt?_eq_day_iff, cellAt?, hweek, Option.bind_some]
  obtain ⟨hcolumn, hlo, hhi, hplace⟩ := (hplaces column k).mp hk
  constructor
  · rintro ⟨later, hlater, hday⟩
    obtain ⟨j, rfl⟩ := Option.ne_none_iff_exists'.mp hday
    obtain ⟨i, hi⟩ := List.mem_iff_getElem?.mp hlater
    rw [List.getElem?_drop, hplaces] at hi
    omega
  · intro hbehind
    have hnext : (week.drop (column + 1))[0]? = some (some (k + 1)) := by
      rw [List.getElem?_drop]
      exact (hplaces _ _).mpr (by omega)
    exact ⟨_, List.mem_of_getElem? hnext, Option.some_ne_none (k + 1)⟩

theorem exists_day_of_mem_weeks {row : List (Option Nat)} (h : row ∈ m.weeks weekStart) :
    ∃ k, some k ∈ row := by
  have hgaps := Weekday.position_lt weekStart m.firstDay.weekday
  have hcount := m.dayCount_pos
  obtain ⟨place, hplace⟩ := List.mem_iff_getElem?.mp h
  have hlt := (List.getElem?_eq_some_iff.mp hplace).1
  rw [length_weeks, Nat.ceilDiv_eq_add_pred_div] at hlt
  -- The first row shows the first day, and a later one begins with a day.
  obtain ⟨column, k, hcell⟩ : ∃ column k, m.cellAt? weekStart place column = some (some k) := by
    rcases Nat.eq_zero_or_pos place with rfl | hpos
    · refine ⟨Weekday.position weekStart m.firstDay.weekday, 1, cellAt?_eq_day_iff.mpr ?_⟩
      omega
    · refine ⟨0, 7 * place + 1 - Weekday.position weekStart m.firstDay.weekday,
        cellAt?_eq_day_iff.mpr ?_⟩
      omega
  rw [cellAt?, hplace] at hcell
  exact ⟨k, List.mem_of_getElem? hcell⟩

theorem position_weekday_of_containing {d : Date} (h : containing d = m) :
    Weekday.position weekStart d.weekday =
      (Weekday.position weekStart m.firstDay.weekday + (d.day - 1)) % 7 :=
  Date.position_weekday_of_dayNumber_eq (dayNumber_eq_of_containing h) weekStart

theorem exists_cellAt?_iff {k : Nat} {d : Date} (h : m.day? k = some d) (weekStart : Weekday) :
    ∃ row, ∀ place column, m.cellAt? weekStart place column = some (some k) ↔
      place = row ∧ column = Weekday.position weekStart d.weekday := by
  obtain ⟨hmonth, rfl⟩ := day?_eq_some_iff.mp h
  have hlo := d.one_le_day
  have hhi : d.day ≤ m.dayCount := hmonth ▸ day_le_dayCount d
  refine ⟨(Weekday.position weekStart m.firstDay.weekday + (d.day - 1)) / 7, ?_⟩
  intro place column
  rw [cellAt?_eq_day_iff, position_weekday_of_containing hmonth]
  omega

/-- The rows of a month are cut off its cells, seven at a time. They are its days in order, between
the empty cells before the first day and those behind the last one. There are as many rows as the
cells up to the last day need, and each has a day. Each day is shown once, in the column of its day
of the week. -/
theorem weeks_layout (m : Month) (weekStart : Weekday) :
    let gaps := Weekday.position weekStart m.firstDay.weekday
    let rows := m.weeks weekStart
    rows = inRows (m.cells weekStart) ∧
      (∃ rest, rows.flatten =
        List.replicate gaps none ++ (List.range' 1 m.dayCount).map some ++
          List.replicate rest none) ∧
      rows.length = (gaps + m.dayCount) ⌈/⌉ 7 ∧
      (∀ row ∈ rows, row.length = 7 ∧ ∃ k, some k ∈ row) ∧
      (∀ k, rows.flatten.count (some k) = if 1 ≤ k ∧ k ≤ m.dayCount then 1 else 0) ∧
      ∀ k, 1 ≤ k → k ≤ m.dayCount → ∃ d row, m.day? k = some d ∧
        ∀ place column, m.cellAt? weekStart place column = some (some k) ↔
          place = row ∧ column = Weekday.position weekStart d.weekday := by
  intro gaps rows
  refine ⟨m.weeks_eq_inRows weekStart, ?_, m.length_weeks weekStart, ?_,
    m.count_flatten_weeks weekStart, ?_⟩
  · obtain ⟨rest, -, hcells⟩ := m.flatten_weeks weekStart
    exact ⟨rest, hcells⟩
  · intro row hrow
    exact ⟨length_of_mem_weeks hrow, exists_day_of_mem_weeks hrow⟩
  · intro k hlo hhi
    obtain ⟨d, hd⟩ := exists_day?_eq_some hlo hhi
    obtain ⟨row, hplaces⟩ := exists_cellAt?_iff hd weekStart
    exact ⟨d, row, hd, hplaces⟩

/-- February 2021 begins on a Monday and fills four rows. -/
theorem weeks_layout_of_full_rows :
    let february := containing ⟨Year.start 2021 + 31, by decide⟩
    1 ≤ 28 ∧ 28 ≤ february.dayCount ∧ (february.weeks .monday).length = 4 ∧
      ∃ d row, february.day? 28 = some d ∧
        ∀ place column, february.cellAt? .monday place column = some (some 28) ↔
          place = row ∧ column = Weekday.position .monday d.weekday := by
  intro february
  have hcount : february.dayCount = 28 := by decide +kernel
  have hgaps : Weekday.position .monday february.firstDay.weekday = 0 := by decide +kernel
  obtain ⟨-, -, hlength, -, -, hdays⟩ := weeks_layout february .monday
  rw [hgaps, hcount] at hlength
  exact ⟨by decide, hcount.ge, hlength, hdays 28 (by decide) hcount.ge⟩

end DayRoster.Month
