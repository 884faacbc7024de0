import DayRoster.Calendar.Weekday
import DayRoster.Calendar.Year
import DayRoster.Text

/-!
The supported days, 1 January of year -262143 to 31 December of year 262142. A date is its day
number, which gives the order of dates, their distance and their day of the week. `Date.range`
lists the days from one day to another. A day is named by a year, a month and a day of the month, by
a year and a day of the year, or by a year, a week and a day of the week: `Date.ofYmd?_eq_some_iff`
says that the fields of a date and the day that they name agree, and `Date.exists_ofYmd?_eq_some`
that every day of the calendar within the supported years has its fields.
-/

set_option autoImplicit false

namespace DayRoster

/-- A supported day, by its number. -/
@[ext]
structure Date where
  dayNumber : Int
  supported : Year.start (-262143) ≤ dayNumber ∧ dayNumber < Year.start 262143
  deriving DecidableEq

namespace Date

instance : LE Date := ⟨fun a b => a.dayNumber ≤ b.dayNumber⟩

instance : LT Date := ⟨fun a b => a.dayNumber < b.dayNumber⟩

instance (a b : Date) : Decidable (a ≤ b) := inferInstanceAs (Decidable (a.dayNumber ≤ b.dayNumber))

instance (a b : Date) : Decidable (a < b) := inferInstanceAs (Decidable (a.dayNumber < b.dayNumber))

instance : Min Date := minOfLe

instance : Max Date := maxOfLe

instance : Ord Date := ⟨compareOn dayNumber⟩

instance : Std.TransOrd Date := inferInstanceAs (Std.TransCmp (compareOn dayNumber))

instance : Std.LawfulEqOrd Date where
  eq_of_compare h := Date.ext (Std.LawfulEqOrd.eq_of_compare h)

def ofDayNumber? (n : Int) : Option Date :=
  if h : Year.start (-262143) ≤ n ∧ n < Year.start 262143 then some ⟨n, h⟩ else none

def addDays? (d : Date) (count : Int) : Option Date := ofDayNumber? (d.dayNumber + count)

/-- The next day, which only the last supported day lacks. -/
def succ? (d : Date) : Option Date := d.addDays? 1

/-- The day of the week. Day 0 is a Saturday. -/
def weekday (d : Date) : Weekday := Weekday.ofNumber ((d.dayNumber + 6) % 7).toNat

/-- The days from `start` to `stop`, both included. A walk from day to day leaves out a day that
has no next one. -/
def range (start stop : Date) : List Date :=
  (List.range (stop.dayNumber + 1 - start.dayNumber).toNat).filterMap fun k : Nat =>
    (start.addDays? k).filter fun d => d.succ?.isSome

theorem ofDayNumber?_eq_some_iff {n : Int} {d : Date} :
    ofDayNumber? n = some d ↔ d.dayNumber = n := by
  rw [ofDayNumber?]
  split
  · next h =>
    rw [Option.some.injEq, Date.ext_iff]
    exact eq_comm
  · next h =>
    simp only [reduceCtorEq, false_iff]
    rintro rfl
    exact h d.supported

theorem ofDayNumber?_eq_none_iff {n : Int} :
    ofDayNumber? n = none ↔ n < Year.start (-262143) ∨ Year.start 262143 ≤ n := by
  rw [ofDayNumber?]
  split
  · simp only [reduceCtorEq, false_iff]
    omega
  · simp only [true_iff]
    omega

theorem position_weekday_of_dayNumber_eq {d e : Date} {count : Nat}
    (h : d.dayNumber = e.dayNumber + count) (weekStart : Weekday) :
    Weekday.position weekStart d.weekday =
      (Weekday.position weekStart e.weekday + count) % 7 := by
  have hstart := weekStart.number_lt
  simp only [Weekday.position, Date.weekday, Weekday.number_ofNumber]
  omega

def year (d : Date) : Int := Year.containing d.dayNumber

/-- The day of the year, counted from 0. -/
def dayOfYear (d : Date) : Nat := (d.dayNumber - Year.start d.year).toNat

def month (d : Date) : Nat := Year.monthAt (Year.isLeap d.year) d.dayOfYear

/-- The day of the month, counted from 1. -/
def day (d : Date) : Nat := d.dayOfYear - Year.daysBefore (Year.isLeap d.year) d.month + 1

def ofYmd? (year : Int) (month day : Nat) : Option Date :=
  let leap := Year.isLeap year
  if 1 ≤ month ∧ month ≤ 12 ∧ 1 ≤ day ∧ day ≤ Year.monthLength leap month then
    ofDayNumber? (Year.start year + Year.daysBefore leap month + day - 1)
  else
    none

def ofOrdinal? (year : Int) (day : Nat) : Option Date :=
  if 1 ≤ day ∧ day ≤ Year.length year then ofDayNumber? (Year.start year + day - 1) else none

theorem year_start_le (d : Date) : Year.start d.year ≤ d.dayNumber :=
  Year.start_containing_le d.dayNumber

theorem lt_year_start_add_one (d : Date) : d.dayNumber < Year.start (d.year + 1) :=
  Year.lt_start_containing_add_one d.dayNumber

theorem year_lt_iff {d : Date} {year : Int} : d.year < year ↔ d.dayNumber < Year.start year := by
  constructor
  · intro h
    have hmono : Year.start (d.year + 1) ≤ Year.start year := Year.start_mono (by omega)
    have hlt := d.lt_year_start_add_one
    omega
  · intro h
    have hle := d.year_start_le
    exact Year.lt_of_start_lt_start (by omega)

theorem dayNumber_eq_add_dayOfYear (d : Date) :
    d.dayNumber = Year.start d.year + d.dayOfYear := by
  have := d.year_start_le
  unfold dayOfYear
  omega

theorem dayOfYear_lt (d : Date) : d.dayOfYear < Year.length d.year := by
  have h₁ := d.lt_year_start_add_one
  have h₂ := d.dayNumber_eq_add_dayOfYear
  rw [Year.start_add_one] at h₁
  omega

theorem one_le_month (d : Date) : 1 ≤ d.month := Year.one_le_monthAt _ _

theorem month_le (d : Date) : d.month ≤ 12 := Year.monthAt_le _ _

theorem one_le_day (d : Date) : 1 ≤ d.day := Nat.le_add_left 1 _

theorem dayNumber_eq (d : Date) :
    d.dayNumber =
      Year.start d.year + Year.daysBefore (Year.isLeap d.year) d.month + d.day - 1 := by
  have h₁ := d.dayNumber_eq_add_dayOfYear
  have h₂ : Year.daysBefore (Year.isLeap d.year) d.month ≤ d.dayOfYear :=
    Year.daysBefore_monthAt_le _ _
  unfold day
  omega

theorem day_le (d : Date) : d.day ≤ Year.monthLength (Year.isLeap d.year) d.month := by
  have hlt : d.dayOfYear < Year.daysBefore (Year.isLeap d.year) (d.month + 1) :=
    Year.lt_daysBefore_monthAt_add_one (Year.daysBefore_thirteen d.year ▸ d.dayOfYear_lt)
  have hle : Year.daysBefore (Year.isLeap d.year) d.month ≤ d.dayOfYear :=
    Year.daysBefore_monthAt_le _ _
  rw [Year.daysBefore] at hlt
  unfold day
  omega

theorem year_bounds (d : Date) : -262143 ≤ d.year ∧ d.year ≤ 262142 := by
  have hlo : ¬ d.year < -262143 := mt year_lt_iff.mp (Int.not_lt.mpr d.supported.1)
  have hhi : d.year < 262143 := year_lt_iff.mpr d.supported.2
  omega

theorem ymd_of_dayNumber_eq {d : Date} {year : Int} {month day : Nat} (hm : month ≤ 12)
    (hlo : 1 ≤ day) (hhi : day ≤ Year.monthLength (Year.isLeap year) month)
    (h : d.dayNumber = Year.start year + Year.daysBefore (Year.isLeap year) month + day - 1) :
    d.year = year ∧ d.month = month ∧ d.day = day := by
  have hlt : Year.daysBefore (Year.isLeap year) month + (day - 1) <
      Year.daysBefore (Year.isLeap year) (month + 1) := by
    rw [Year.daysBefore]
    omega
  have hyear : d.year = year := by
    apply Year.containing_eq_iff.mpr
    have hle : Year.daysBefore (Year.isLeap year) (month + 1) ≤ Year.length year := by
      rw [← Year.daysBefore_thirteen]
      exact Year.daysBefore_mono _ (by omega)
    rw [Year.start_add_one]
    omega
  subst hyear
  have hoy : d.dayOfYear = Year.daysBefore (Year.isLeap d.year) month + (day - 1) := by
    have := d.dayNumber_eq_add_dayOfYear
    omega
  have hmonth : d.month = month := by
    apply Year.monthAt_eq_of_le_of_lt hm <;> omega
  refine ⟨rfl, hmonth, ?_⟩
  rw [Date.day, hmonth]
  omega

theorem ofYmd?_eq_some_iff {year : Int} {month day : Nat} {d : Date} :
    ofYmd? year month day = some d ↔ d.year = year ∧ d.month = month ∧ d.day = day := by
  rw [ofYmd?]
  split
  · next h =>
    rw [ofDayNumber?_eq_some_iff]
    constructor
    · exact ymd_of_dayNumber_eq h.2.1 h.2.2.1 h.2.2.2
    · rintro ⟨rfl, rfl, rfl⟩
      exact d.dayNumber_eq
  · next h =>
    simp only [reduceCtorEq, false_iff]
    rintro ⟨rfl, rfl, rfl⟩
    exact h ⟨d.one_le_month, d.month_le, d.one_le_day, d.day_le⟩

theorem exists_ofYmd?_eq_some (year : Int) (month day : Nat) (hy : -262143 ≤ year)
    (hy' : year ≤ 262142) (hm : 1 ≤ month) (hm' : month ≤ 12) (hd : 1 ≤ day)
    (hd' : day ≤ Year.monthLength (Year.isLeap year) month) :
    ∃ d, ofYmd? year month day = some d := by
  have hlo := Year.start_mono hy
  have hhi : Year.start (year + 1) ≤ Year.start 262143 := Year.start_mono (by omega)
  have hle : Year.daysBefore (Year.isLeap year) (month + 1) ≤ Year.length year := by
    rw [← Year.daysBefore_thirteen]
    exact Year.daysBefore_mono _ (by omega)
  rw [Year.daysBefore] at hle
  rw [Year.start_add_one] at hhi
  rw [ofYmd?, if_pos ⟨hm, hm', hd, hd'⟩, ofDayNumber?, dif_pos (by omega)]
  exact ⟨_, rfl⟩

theorem ofYmd?_eq_none_of_lt {year : Int} (month day : Nat) (h : 262142 < year) :
    ofYmd? year month day = none := by
  cases hd : ofYmd? year month day with
  | none => rfl
  | some d =>
    have := d.year_bounds
    have := ofYmd?_eq_some_iff.mp hd
    omega

/-- The day number of the Monday on which the weeks of a year begin, in the week of 4 January. -/
def firstMonday (year : Int) : Int :=
  let fourth := Year.start year + 3
  fourth - (fourth + 5) % 7

def weekCount (year : Int) : Nat := ((firstMonday (year + 1) - firstMonday year) / 7).toNat

/-- The day with a year, a week of that year, counted from 1, and a day of the week, if there is
such a week. Weeks begin on Monday, and the days of the first and the last week may belong to a
neighbouring year. -/
def ofIsoWeek? (year : Int) (week : Nat) (weekday : Weekday) : Option Date :=
  if 1 ≤ week ∧ week ≤ weekCount year then
    ofDayNumber? (firstMonday year + 7 * (week - 1) + Weekday.position .monday weekday)
  else
    none

/-- A year from 0 to 9999 has four digits, any other one a sign and at least four digits. -/
def yearDigits (year : Int) : List Char :=
  if 0 ≤ year ∧ year ≤ 9999 then
    Decimal.padded 4 year.natAbs
  else
    (if year < 0 then '-' else '+') :: Decimal.padded 4 year.natAbs

def text (d : Date) : String :=
  String.ofList (yearDigits d.year ++ '-' :: Decimal.padded 2 d.month ++
    '-' :: Decimal.padded 2 d.day)

def key (d : Date) : String :=
  String.ofList (yearDigits d.year ++ Decimal.padded 2 d.month ++ Decimal.padded 2 d.day)

end Date

end DayRoster
