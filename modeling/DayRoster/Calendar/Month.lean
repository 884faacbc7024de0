import DayRoster.Calendar.Settings

/-!
The months of the supported years. A month is its number in the count of all months, in which
January of year 0 is 0, so the next month is the next number. The length of a month is found from
the day one month after one of its days; `Date.daysInMonth_eq` says that it is that of the month
table. `Month.between` lists the months that a span of days touches, and `Month.weeks` lays a month
out in rows of seven cells.
-/

set_option autoImplicit false

namespace DayRoster

namespace Date

/-- The same day of the next month, or the last day of that month if it is shorter. -/
def monthLater? (d : Date) : Option Date :=
  let year := if d.month = 12 then d.year + 1 else d.year
  let month := if d.month = 12 then 1 else d.month + 1
  ofYmd? year month (min d.day (Year.monthLength (Year.isLeap year) month))

/-- The length of the month of a day: the distance from the first of that month to the first of
the next one. The last supported month has none after it and is a December. -/
def daysInMonth (d : Date) : Nat :=
  match d.monthLater? with
  | none => 31
  | some later => ((later.dayNumber - later.day) - (d.dayNumber - d.day)).toNat

theorem monthLater?_eq_some_iff {d later : Date} :
    d.monthLater? = some later ↔
      later.day = min d.day (Year.monthLength (Year.isLeap later.year) later.month) ∧
        12 * later.year + later.month = 12 * d.year + d.month + 1 := by
  have h₁ := d.month_le
  have h₂ := d.one_le_month
  have h₃ := later.month_le
  have h₄ := later.one_le_month
  rw [monthLater?, ofYmd?_eq_some_iff]
  constructor
  · rintro ⟨hy, hm, hd⟩
    rw [← hy, ← hm] at hd
    refine ⟨hd, ?_⟩
    split at hy <;> simp_all <;> omega
  · rintro ⟨hd, hindex⟩
    have hy : later.year = if d.month = 12 then d.year + 1 else d.year := by
      split <;> omega
    have hm : later.month = if d.month = 12 then 1 else d.month + 1 := by
      split <;> omega
    refine ⟨hy, hm, ?_⟩
    rw [← hy, ← hm]
    exact hd

theorem monthLater?_eq_none_iff {d : Date} :
    d.monthLater? = none ↔ d.year = 262142 ∧ d.month = 12 := by
  have hy := d.year_bounds
  have hm := d.month_le
  have hm' := d.one_le_month
  rw [monthLater?]
  by_cases h : d.month = 12
  · simp only [h, if_true, and_true]
    constructor
    · intro hnone
      apply Decidable.byContradiction
      intro hne
      have hlo := d.one_le_day
      obtain ⟨later, hlater⟩ := exists_ofYmd?_eq_some (d.year + 1) 1
        (min d.day (Year.monthLength (Year.isLeap (d.year + 1)) 1)) (by omega) (by omega)
        (by decide) (by decide) (by rw [Year.monthLength]; omega) (Nat.min_le_right _ _)
      rw [hlater] at hnone
      exact Option.some_ne_none _ hnone
    · intro hmax
      exact ofYmd?_eq_none_of_lt _ _ (by omega)
  · simp only [h, if_false, and_false, iff_false]
    have hlo := d.one_le_day
    have hpos := Year.monthLength_pos (Year.isLeap d.year) (show 1 ≤ d.month + 1 by omega) (by omega)
    obtain ⟨later, hlater⟩ := exists_ofYmd?_eq_some d.year (d.month + 1)
      (min d.day (Year.monthLength (Year.isLeap d.year) (d.month + 1))) (by omega) (by omega)
      (by omega) (by omega) (by omega) (Nat.min_le_right _ _)
    rw [hlater]
    exact Option.some_ne_none _

theorem daysInMonth_eq (d : Date) :
    d.daysInMonth = Year.monthLength (Year.isLeap d.year) d.month := by
  have hday := d.dayNumber_eq
  rw [daysInMonth]
  split
  · next h =>
    rw [(monthLater?_eq_none_iff.mp h).2]
    rfl
  · next later h =>
    have hlater := later.dayNumber_eq
    obtain ⟨-, hindex⟩ := monthLater?_eq_some_iff.mp h
    have h₁ := d.month_le
    have h₂ := d.one_le_month
    have h₃ := later.month_le
    have h₄ := later.one_le_month
    by_cases hm : d.month = 12
    · have hy : later.year = d.year + 1 := by omega
      have hm' : later.month = 1 := by omega
      have hthirteen := Year.daysBefore_thirteen d.year
      rw [Year.daysBefore] at hthirteen
      rw [hy, hm', Year.start_add_one] at hlater
      have hone : Year.daysBefore (Year.isLeap (d.year + 1)) 1 = 0 := rfl
      rw [hm] at hday ⊢
      omega
    · have hy : later.year = d.year := by omega
      have hm' : later.month = d.month + 1 := by omega
      rw [hy, hm', Year.daysBefore] at hlater
      omega

end Date

/-- A supported month, by its number in the count of all months. -/
@[ext]
structure Month where
  index : Int
  supported : 12 * (-262143) ≤ index ∧ index < 12 * 262143
  deriving DecidableEq

namespace Month

instance : LE Month := ⟨fun a b => a.index ≤ b.index⟩

instance : LT Month := ⟨fun a b => a.index < b.index⟩

instance (a b : Month) : Decidable (a ≤ b) := inferInstanceAs (Decidable (a.index ≤ b.index))

instance (a b : Month) : Decidable (a < b) := inferInstanceAs (Decidable (a.index < b.index))

def ofIndex? (index : Int) : Option Month :=
  if h : 12 * (-262143) ≤ index ∧ index < 12 * 262143 then some ⟨index, h⟩ else none

def year (m : Month) : Int := m.index / 12

def number (m : Month) : Nat := (m.index % 12).toNat + 1

def ofYearNumber? (year : Int) (number : Nat) : Option Month :=
  if 1 ≤ number ∧ number ≤ 12 then ofIndex? (12 * year + (number - 1)) else none

def containing (d : Date) : Month where
  index := 12 * d.year + (d.month - 1)
  supported := by
    have := d.year_bounds
    have := d.one_le_month
    have := d.month_le
    omega

def succ? (m : Month) : Option Month := ofIndex? (m.index + 1)

theorem one_le_number (m : Month) : 1 ≤ m.number := Nat.le_add_left 1 _

theorem number_le (m : Month) : m.number ≤ 12 := by
  rw [number]
  omega

theorem year_bounds (m : Month) : -262143 ≤ m.year ∧ m.year ≤ 262142 := by
  have := m.supported
  rw [year]
  omega

theorem daysBefore_add_monthLength_le (m : Month) :
    Year.daysBefore (Year.isLeap m.year) m.number +
      Year.monthLength (Year.isLeap m.year) m.number ≤ Year.length m.year := by
  have hmono := Year.daysBefore_mono (Year.isLeap m.year)
    (show m.number + 1 ≤ 13 by have := m.number_le; omega)
  rw [Year.daysBefore_thirteen] at hmono
  exact hmono

theorem supported_day (m : Month) {k : Nat}
    (hk : k < Year.monthLength (Year.isLeap m.year) m.number) :
    Year.start (-262143) ≤
        Year.start m.year + Year.daysBefore (Year.isLeap m.year) m.number + k ∧
      Year.start m.year + Year.daysBefore (Year.isLeap m.year) m.number + k <
        Year.start 262143 := by
  have hlo := Year.start_mono m.year_bounds.1
  have hhi : Year.start (m.year + 1) ≤ Year.start 262143 :=
    Year.start_mono (by have := m.year_bounds; omega)
  have hle := m.daysBefore_add_monthLength_le
  rw [Year.start_add_one] at hhi
  omega

def firstDay (m : Month) : Date where
  dayNumber := Year.start m.year + Year.daysBefore (Year.isLeap m.year) m.number
  supported := by
    have hpos := Year.monthLength_pos (Year.isLeap m.year) m.one_le_number m.number_le
    have hday := m.supported_day (show 0 < Year.monthLength (Year.isLeap m.year) m.number by omega)
    rw [Int.natCast_zero, Int.add_zero] at hday
    exact hday

theorem dayNumber_firstDay (m : Month) :
    m.firstDay.dayNumber = Year.start m.year + Year.daysBefore (Year.isLeap m.year) m.number :=
  rfl

def dayCount (m : Month) : Nat := m.firstDay.daysInMonth

theorem fields_firstDay (m : Month) :
    m.firstDay.year = m.year ∧ m.firstDay.month = m.number ∧ m.firstDay.day = 1 := by
  have hpos := Year.monthLength_pos (Year.isLeap m.year) m.one_le_number m.number_le
  apply Date.ymd_of_dayNumber_eq m.number_le (Nat.le_refl 1) (by omega)
  rw [dayNumber_firstDay]
  omega

theorem dayCount_eq (m : Month) :
    m.dayCount = Year.monthLength (Year.isLeap m.year) m.number := by
  obtain ⟨hyear, hmonth, -⟩ := m.fields_firstDay
  rw [dayCount, Date.daysInMonth_eq, hyear, hmonth]

theorem dayCount_pos (m : Month) : 28 ≤ m.dayCount := by
  rw [dayCount_eq]
  exact Year.monthLength_pos _ m.one_le_number m.number_le

def lastDay (m : Month) : Date where
  dayNumber := m.firstDay.dayNumber + (m.dayCount - 1 : Nat)
  supported := by
    have hpos := m.dayCount_pos
    apply m.supported_day
    rw [← dayCount_eq]
    omega

/-- The day of a month with a number from 1 to the length of the month. -/
def day? (m : Month) (k : Nat) : Option Date := Date.ofYmd? m.year m.number k

/-- The days of a month in order, as a walk from the first to the last day yields them. -/
def days (m : Month) : List Date := Date.range m.firstDay m.lastDay

def range (first last : Month) : List Month :=
  (List.range (last.index + 1 - first.index).toNat).filterMap fun k : Nat =>
    ofIndex? (first.index + k)

/-- The months that the span from `min` to `max` touches. There are none if a bound is missing.
Whole months are compared, so a reversed span within one month touches that month. -/
def between (min max : Option Date) : List Month :=
  match min, max with
  | some min, some max => range (containing min) (containing max)
  | _, _ => []

/-- The rows of a month in weeks that begin with `weekStart`. A cell holds the number of a day, or
nothing before the first and after the last day. -/
def weeks (m : Month) (weekStart : Weekday) : List (List (Option Nat)) :=
  let gaps := Weekday.position weekStart m.firstDay.weekday
  let count := m.dayCount
  (List.range ((gaps + count + 6) / 7)).map fun row =>
    (List.range 7).map fun column =>
      let cell := 7 * row + column
      if gaps ≤ cell ∧ cell < gaps + count then some (cell + 1 - gaps) else none

def name (m : Month) (locale : Locale) : String :=
  have hnumber : m.number - 1 < locale.monthNames.length := by
    have hle := m.number_le
    rw [locale.length_monthNames]
    omega
  locale.monthNames[m.number - 1]

/-- The text `YYYY-MM` of a month. A minus sign counts among the four characters of the year. -/
def text (m : Month) : String :=
  String.ofList (Decimal.signed 4 m.year ++ '-' :: Decimal.padded 2 m.number)

end Month

end DayRoster
