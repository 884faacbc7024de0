/-!
The days of the week. They are numbered from Sunday; `Weekday.next` steps through them in order,
and `Weekday.position` counts the steps from a chosen first day of the week.
-/

set_option autoImplicit false

namespace DayRoster

inductive Weekday
  | sunday
  | monday
  | tuesday
  | wednesday
  | thursday
  | friday
  | saturday
  deriving DecidableEq

namespace Weekday

def number : Weekday → Nat
  | sunday => 0
  | monday => 1
  | tuesday => 2
  | wednesday => 3
  | thursday => 4
  | friday => 5
  | saturday => 6

/-- The day of the week with a number, which counts modulo 7. -/
def ofNumber (n : Nat) : Weekday :=
  match n % 7 with
  | 0 => sunday
  | 1 => monday
  | 2 => tuesday
  | 3 => wednesday
  | 4 => thursday
  | 5 => friday
  | _ => saturday

def next : Weekday → Weekday
  | sunday => monday
  | monday => tuesday
  | tuesday => wednesday
  | wednesday => thursday
  | thursday => friday
  | friday => saturday
  | saturday => sunday

def name : Weekday → String
  | sunday => "Sun"
  | monday => "Mon"
  | tuesday => "Tue"
  | wednesday => "Wed"
  | thursday => "Thu"
  | friday => "Fri"
  | saturday => "Sat"

/-- The position of a day in the weeks that begin with `weekStart`. -/
def position (weekStart day : Weekday) : Nat := (7 + day.number - weekStart.number) % 7

def run : Nat → Weekday → List Weekday
  | 0, _ => []
  | n + 1, day => day :: run n day.next

def week (weekStart : Weekday) : List Weekday := run 7 weekStart

theorem number_lt (day : Weekday) : day.number < 7 := by
  cases day <;> decide

@[simp]
theorem ofNumber_number (day : Weekday) : ofNumber day.number = day := by
  cases day <;> rfl

@[simp]
theorem number_ofNumber (n : Nat) : (ofNumber n).number = n % 7 := by
  unfold ofNumber
  have hlt : n % 7 < 7 := Nat.mod_lt n (by decide)
  generalize n % 7 = r at hlt
  match r, hlt with
  | 0, _ | 1, _ | 2, _ | 3, _ | 4, _ | 5, _ | 6, _ => rfl

theorem number_next (day : Weekday) : day.next.number = (day.number + 1) % 7 := by
  cases day <;> rfl

theorem position_lt (weekStart day : Weekday) : position weekStart day < 7 :=
  Nat.mod_lt _ (by decide)

theorem ofNumber_congr {m n : Nat} (h : m % 7 = n % 7) : ofNumber m = ofNumber n := by
  rw [← ofNumber_number (ofNumber m), number_ofNumber, h, ← number_ofNumber, ofNumber_number]

theorem ofNumber_number_add_position (weekStart day : Weekday) :
    ofNumber (weekStart.number + position weekStart day) = day := by
  have hstart := weekStart.number_lt
  have hday := day.number_lt
  have hnumber : (weekStart.number + position weekStart day) % 7 = day.number % 7 := by
    rw [position]
    omega
  rw [ofNumber_congr hnumber, ofNumber_number]

theorem getElem?_run {n i : Nat} (h : i < n) (day : Weekday) :
    (run n day)[i]? = some (ofNumber (day.number + i)) := by
  induction n generalizing i day with
  | zero => exact absurd h (Nat.not_lt_zero i)
  | succ n ih =>
    cases i with
    | zero => rw [run, List.getElem?_cons_zero, Nat.add_zero, ofNumber_number]
    | succ i =>
      have hnext : (day.next.number + i) % 7 = (day.number + (i + 1)) % 7 := by
        rw [number_next]
        omega
      rw [run, List.getElem?_cons_succ, ih (Nat.lt_of_succ_lt_succ h), ofNumber_congr hnext]

theorem getElem?_week_position (weekStart day : Weekday) :
    (week weekStart)[position weekStart day]? = some day := by
  rw [week, getElem?_run (position_lt weekStart day), ofNumber_number_add_position]

end Weekday

end DayRoster
