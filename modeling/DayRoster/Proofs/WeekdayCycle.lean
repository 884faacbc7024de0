import DayRoster.Calendar.Settings
import DayRoster.Proofs.DateRange

/-!
The days of the week go round. From a day to the next one, by the year, the month and the day of the
month, the day of the week moves on by one and so does the position in the week, whatever the first
day of the week and whichever month, year or era begins in between.
-/

set_option autoImplicit false

namespace DayRoster

namespace Date

/-- What comes after a day in the calendar: the next day of the month, the first day of the next
month, or 1 January of the next year. -/
inductive Follows (d next : Date) : Prop
  | withinMonth (hyear : next.year = d.year) (hmonth : next.month = d.month)
      (hday : next.day = d.day + 1)
  | newMonth (hlast : d.day = Year.monthLength (Year.isLeap d.year) d.month)
      (hyear : next.year = d.year) (hmonth : next.month = d.month + 1) (hday : next.day = 1)
  | newYear (hlast : d.month = 12 ∧ d.day = 31) (hyear : next.year = d.year + 1)
      (hfirst : next.month = 1 ∧ next.day = 1)

variable {d next : Date}

theorem Follows.dayNumber_eq (h : d.Follows next) : next.dayNumber = d.dayNumber + 1 := by
  have hnumber := d.dayNumber_eq
  have hnext := next.dayNumber_eq
  cases h with
  | withinMonth hyear hmonth hday =>
    rw [hyear, hmonth, hday] at hnext
    omega
  | newMonth hlast hyear hmonth hday =>
    rw [hyear, hmonth, hday, Year.daysBefore] at hnext
    omega
  | newYear hlast hyear hfirst =>
    have hlength := Year.daysBefore_thirteen d.year
    have hdecember : Year.monthLength (Year.isLeap d.year) 12 = 31 := rfl
    have hjanuary : Year.daysBefore (Year.isLeap (d.year + 1)) 1 = 0 := rfl
    rw [Year.daysBefore, hdecember] at hlength
    rw [hlast.1, hlast.2] at hnumber
    rw [hyear, hfirst.1, hfirst.2, hjanuary, Year.start_add_one] at hnext
    omega

theorem follows_of_dayNumber_eq (h : next.dayNumber = d.dayNumber + 1) : d.Follows next := by
  have hnumber := d.dayNumber_eq
  have hle := d.month_le
  rcases Nat.lt_or_eq_of_le d.day_le with hday | hlast
  · have hnext : next.dayNumber = Year.start d.year + Year.daysBefore (Year.isLeap d.year) d.month +
        (d.day + 1 : Nat) - 1 := by omega
    obtain ⟨hyear, hmonth, hday⟩ := ymd_of_dayNumber_eq hle (Nat.le_add_left 1 d.day) hday hnext
    exact .withinMonth hyear hmonth hday
  rcases Nat.lt_or_eq_of_le hle with hbefore | hdecember
  · have hpos := Year.monthLength_pos (Year.isLeap d.year) (Nat.le_add_left 1 d.month) hbefore
    have hnext : next.dayNumber = Year.start d.year +
        Year.daysBefore (Year.isLeap d.year) (d.month + 1) + (1 : Nat) - 1 := by
      rw [Year.daysBefore]
      omega
    obtain ⟨hyear, hmonth, hday⟩ :=
      ymd_of_dayNumber_eq hbefore (Nat.le_refl 1) (Nat.le_trans (by decide) hpos) hnext
    exact .newMonth hlast hyear hmonth hday
  · have hthirtyOne : d.day = 31 := by
      rw [hlast, hdecember]
      rfl
    have hlength := Year.daysBefore_thirteen d.year
    rw [Year.daysBefore, ← hdecember, ← hlast] at hlength
    have hnext : next.dayNumber = Year.start (d.year + 1) +
        Year.daysBefore (Year.isLeap (d.year + 1)) 1 + (1 : Nat) - 1 := by
      have hjanuary : Year.daysBefore (Year.isLeap (d.year + 1)) 1 = 0 := rfl
      rw [hjanuary, Year.start_add_one]
      omega
    have hpos : 1 ≤ Year.monthLength (Year.isLeap (d.year + 1)) 1 := show 1 ≤ 31 by decide
    obtain ⟨hyear, hmonth, hday⟩ :=
      ymd_of_dayNumber_eq (by decide) (Nat.le_refl 1) hpos hnext
    exact .newYear ⟨hdecember, hthirtyOne⟩ hyear ⟨hmonth, hday⟩

theorem follows_iff : d.Follows next ↔ d.succ? = some next := by
  rw [succ?_eq_some_iff]
  exact ⟨Follows.dayNumber_eq, follows_of_dayNumber_eq⟩

end Date

namespace Weekday

theorem number_le_seven_add (weekStart day : Weekday) : weekStart.number ≤ 7 + day.number := by
  have hstart := weekStart.number_lt
  omega

theorem position_next (weekStart day : Weekday) :
    position weekStart day.next = (position weekStart day + 1) % 7 := by
  have hstart := weekStart.number_lt
  rw [position, position, number_next]
  omega

theorem count_week (weekStart day : Weekday) : (week weekStart).count day = 1 := by
  cases weekStart <;> cases day <;> rfl

end Weekday

theorem Date.weekday_of_follows {d next : Date} (h : d.Follows next) :
    next.weekday = d.weekday.next := by
  have hnumber := h.dayNumber_eq
  have hnext : ((next.dayNumber + 6) % 7).toNat % 7 = d.weekday.next.number % 7 := by
    rw [Weekday.number_next, weekday, Weekday.number_ofNumber]
    omega
  rw [weekday, Weekday.ofNumber_congr hnext, Weekday.ofNumber_number]

namespace Settings

/-- The position of a day is below 7, found without a subtraction below zero, and that of its day of
the week in the order of display, in which each day of the week stands once. Every day but the last
supported one has a next day, which follows it in the calendar, and its position is the next one,
or the first one after the last. -/
theorem position_goes_round (settings : Settings) (d : Date) :
    settings.position d < 7 ∧
      settings.weekStart.number ≤ 7 + d.weekday.number ∧
      settings.weekdays[settings.position d]? = some d.weekday ∧
      (settings.weekdays.length = 7 ∧ ∀ day, settings.weekdays.count day = 1) ∧
      (d.succ? = none ↔ d = Date.lastSupported) ∧
      ∀ next, (d.succ? = some next ↔ d.Follows next) ∧
        (d.succ? = some next → next.weekday = d.weekday.next ∧
          settings.position next = (settings.position d + 1) % 7) := by
  refine ⟨settings.position_lt d, Weekday.number_le_seven_add _ _,
    Weekday.getElem?_week_position _ _,
    ⟨rfl, Weekday.count_week settings.weekStart⟩,
    Date.succ?_eq_none_iff, fun next => ⟨Date.follows_iff.symm, fun hnext => ?_⟩⟩
  have hweekday := Date.weekday_of_follows (Date.follows_iff.mpr hnext)
  refine ⟨hweekday, ?_⟩
  rw [position, hweekday, Weekday.position_next]
  rfl

/-- Year 0 is a leap year, and ends on the last day of the weeks that begin with Monday. -/
theorem position_into_year_one :
    let settings : Settings := { weekStart := .monday }
    let d : Date := ⟨Year.start 1 - 1, by decide⟩
    let next : Date := ⟨Year.start 1, by decide⟩
    d.year = 0 ∧ d.dayOfYear = 365 ∧ d.Follows next ∧
      settings.position d = 6 ∧ settings.position next = 0 := by
  intro settings d next
  obtain ⟨-, -, -, -, -, hstep⟩ := settings.position_goes_round d
  obtain ⟨hfollows, hround⟩ := hstep next
  have hnext : d.succ? = some next := by decide
  have hd : settings.position d = 6 := by decide
  obtain ⟨-, hposition⟩ := hround hnext
  rw [hd] at hposition
  exact ⟨by decide +kernel, by decide +kernel, hfollows.mp hnext, hd, hposition⟩

end Settings

end DayRoster
