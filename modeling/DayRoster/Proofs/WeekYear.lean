import DayRoster.Calendar.Date

/-!
Weeks and the years that they belong to. The week of a day belongs to the year that its Thursday is
in, and is counted from the first Thursday of that year. `Date.ofIsoWeek?_eq_some_iff` says that the
days named by a week are those of that week, counted so.
-/

set_option autoImplicit false

namespace DayRoster

theorem Weekday.position_monday_inj {day other : Weekday} :
    position .monday day = position .monday other ↔ day = other := by
  cases day <;> cases other <;> decide

namespace Date

/-- The Thursday in the week of a day, by its number. -/
def thursday (d : Date) : Int := d.dayNumber - Weekday.position .monday d.weekday + 3

def weekYear (d : Date) : Int := Year.containing d.thursday

/-- The number of the week of a day in the year of the week, counted from 1. -/
def week (d : Date) : Nat := ((d.thursday - Year.start d.weekYear) / 7).toNat + 1

theorem position_monday_weekday (d : Date) :
    (Weekday.position .monday d.weekday : Int) = (d.dayNumber + 5) % 7 := by
  have hmonday : Weekday.monday.number = 1 := rfl
  rw [Weekday.position, weekday, Weekday.number_ofNumber, hmonday]
  omega

/-- Day 0 is a Saturday, so that the numbers of Thursdays leave 5 when divided by 7. -/
private theorem thursday_emod (d : Date) : d.thursday % 7 = 5 := by
  rw [thursday, position_monday_weekday]
  omega

theorem weekYear_eq_iff {d : Date} {year : Int} :
    d.weekYear = year ↔ Year.start year ≤ d.thursday ∧ d.thursday < Year.start (year + 1) :=
  Year.containing_eq_iff

private theorem firstMonday_emod (year : Int) : firstMonday year % 7 = 2 := by
  rw [firstMonday]
  omega

private theorem firstMonday_bounds (year : Int) :
    Year.start year ≤ firstMonday year + 3 ∧ firstMonday year ≤ Year.start year + 3 := by
  rw [firstMonday]
  omega

theorem firstMonday_mono {year later : Int} (h : year ≤ later) :
    firstMonday year ≤ firstMonday later := by
  have hstart := Year.start_mono h
  rw [firstMonday, firstMonday]
  omega

theorem firstMonday_add_one (year : Int) :
    firstMonday (year + 1) = firstMonday year + 7 * weekCount year := by
  have hmod := firstMonday_emod year
  have hmod' := firstMonday_emod (year + 1)
  have hmono : firstMonday year ≤ firstMonday (year + 1) := firstMonday_mono (by omega)
  rw [weekCount]
  omega

private theorem weekYear_and_week_iff {d : Date} {year : Int} {week : Nat} (hweek : 1 ≤ week) :
    d.weekYear = year ∧ d.week = week ↔
      week ≤ weekCount year ∧ d.thursday = firstMonday year + 7 * (week - 1) + 3 := by
  -- Thursdays and first Mondays are fixed modulo 7, so the number of weeks between them is whole.
  have hthursday := d.thursday_emod
  have hmonday := firstMonday_emod year
  have hbounds := firstMonday_bounds year
  have hbounds' := firstMonday_bounds (year + 1)
  have hnext := firstMonday_add_one year
  constructor
  · rintro ⟨hyear, rfl⟩
    have hinside := weekYear_eq_iff.mp hyear
    rw [Date.week, hyear]
    omega
  · rintro ⟨hcount, hday⟩
    have hyear : d.weekYear = year := by
      rw [weekYear_eq_iff]
      omega
    refine ⟨hyear, ?_⟩
    rw [Date.week, hyear]
    omega

theorem ofIsoWeek?_eq_some_iff {year : Int} {week : Nat} {weekday : Weekday} {d : Date} :
    ofIsoWeek? year week weekday = some d ↔
      d.weekYear = year ∧ d.week = week ∧ d.weekday = weekday := by
  rw [ofIsoWeek?]
  split
  · next h =>
    rw [ofDayNumber?_eq_some_iff, ← and_assoc, weekYear_and_week_iff h.1]
    have hmonday := firstMonday_emod year
    have hposition := d.position_monday_weekday
    have hlt := Weekday.position_lt .monday weekday
    constructor
    · intro hday
      have hsame : Weekday.position .monday d.weekday = Weekday.position .monday weekday := by omega
      refine ⟨⟨h.2, ?_⟩, Weekday.position_monday_inj.mp hsame⟩
      rw [thursday]
      omega
    · rintro ⟨⟨-, hthursday⟩, rfl⟩
      rw [thursday] at hthursday
      omega
  · next h =>
    simp only [reduceCtorEq, false_iff]
    rintro ⟨hyear, rfl, -⟩
    have hone : 1 ≤ d.week := Nat.le_add_left 1 _
    exact h ⟨hone, ((weekYear_and_week_iff hone).mp ⟨hyear, rfl⟩).1⟩

theorem ofIsoWeek?_eq_none_iff {year week : Nat} (weekday : Weekday) (hyear : year < 10000) :
    ofIsoWeek? year week weekday = none ↔ week = 0 ∨ weekCount year < week := by
  rw [ofIsoWeek?]
  split
  · next h =>
    have hlo : Year.start 0 ≤ Year.start year := Year.start_mono (Int.natCast_nonneg year)
    have hhi : Year.start (year + 1) ≤ Year.start 10000 := Year.start_mono (by omega)
    have hfirst := firstMonday_bounds year
    have hlast := firstMonday_bounds (year + 1)
    have hnext := firstMonday_add_one year
    have hlt := Weekday.position_lt .monday weekday
    -- The four numbers keep the weeks of these years far inside of the supported days.
    have hsupported : Year.start (-262143) = -95745764 ∧ Year.start 0 = 0 ∧
        Year.start 10000 = 3652425 ∧ Year.start 262143 = 95745765 := by decide
    rw [ofDayNumber?_eq_none_iff]
    omega
  · next h =>
    simp only [true_iff]
    omega

theorem dayNumber_lt_of_ofIsoWeek? {year : Int} {week : Nat} {weekday : Weekday} {d : Date}
    (h : ofIsoWeek? year week weekday = some d) : d.dayNumber < firstMonday (year + 1) := by
  have hnext := firstMonday_add_one year
  have hlt := Weekday.position_lt .monday weekday
  rw [ofIsoWeek?] at h
  split at h
  · rw [ofDayNumber?_eq_some_iff] at h
    omega
  · exact nomatch h

/-- The number of weeks of a year: 53 if its first or its last day is a Thursday, and else 52. -/
def weeksOfYear (year : Int) : Nat :=
  if (ofYmd? year 1 1).any (·.weekday = .thursday) ∨ (ofYmd? year 12 31).any (·.weekday = .thursday)
  then 53 else 52

private theorem any_thursday_iff {year : Int} (hlo : -262143 ≤ year) (hhi : year ≤ 262142)
    (month day : Nat) (hmonth : 1 ≤ month ∧ month ≤ 12)
    (hday : 1 ≤ day ∧ day ≤ Year.monthLength (Year.isLeap year) month) :
    (ofYmd? year month day).any (·.weekday = .thursday) ↔
      (Year.start year + Year.daysBefore (Year.isLeap year) month + day - 1) % 7 = 5 := by
  obtain ⟨d, hd⟩ :=
    exists_ofYmd?_eq_some year month day hlo hhi hmonth.1 hmonth.2 hday.1 hday.2
  obtain ⟨rfl, rfl, rfl⟩ := ofYmd?_eq_some_iff.mp hd
  have hposition := d.position_monday_weekday
  have hthursday : Weekday.position .monday .thursday = 3 := rfl
  rw [hd, Option.any_some, decide_eq_true_iff, ← Weekday.position_monday_inj, ← d.dayNumber_eq]
  omega

theorem weekCount_eq {year : Int} (hlo : -262143 ≤ year) (hhi : year ≤ 262142) :
    weekCount year = weeksOfYear year := by
  have hnext := Year.start_add_one year
  have hthirteen := Year.daysBefore_thirteen year
  have hdecember : Year.monthLength (Year.isLeap year) 12 = 31 := rfl
  have hjanuary : Year.daysBefore (Year.isLeap year) 1 = 0 := rfl
  have hlength : Year.length year = 365 ∨ Year.length year = 366 := by
    rw [Year.length]
    split <;> simp
  have hfirst := any_thursday_iff hlo hhi 1 1 (by decide)
    ⟨Nat.le_refl 1, by simp [Year.monthLength]⟩
  have hlast := any_thursday_iff hlo hhi 12 31 (by decide)
    ⟨by decide, Nat.le_of_eq hdecember.symm⟩
  rw [Year.daysBefore, hdecember] at hthirteen
  rw [hjanuary] at hfirst
  simp only [weeksOfYear, hfirst, hlast, weekCount, firstMonday]
  split <;> omega

theorem ofOrdinal?_eq_some_iff {year : Int} {day : Nat} {d : Date} :
    ofOrdinal? year day = some d ↔ d.year = year ∧ d.dayOfYear + 1 = day := by
  have hday := d.dayNumber_eq_add_dayOfYear
  rw [ofOrdinal?]
  split
  · next h =>
    rw [ofDayNumber?_eq_some_iff]
    constructor
    · intro hnumber
      have hyear : d.year = year := by
        rw [Date.year, Year.containing_eq_iff, Year.start_add_one]
        omega
      rw [hyear] at hday
      exact ⟨hyear, by omega⟩
    · rintro ⟨rfl, rfl⟩
      omega
  · next h =>
    simp only [reduceCtorEq, false_iff]
    rintro ⟨rfl, rfl⟩
    have hlt := d.dayOfYear_lt
    omega

end Date

end DayRoster
