/-!
Years and months of the proleptic Gregorian calendar, counted in days. Day 0 is 1 January of
year 0; years before it are zero or negative. `Year.start` gives the first day of a year and
`Year.containing` is its floor inverse: `start y ≤ n < start (y + 1)` holds exactly for the year
`y` that contains day `n`. Inside a year, `daysBefore` gives the first day of a month and `monthAt`
is its floor inverse.
-/

set_option autoImplicit false

namespace DayRoster.Year

/-- Every fourth year is a leap year, except the centuries that 400 does not divide. -/
def isLeap (y : Int) : Bool := y % 4 = 0 ∧ (y % 100 ≠ 0 ∨ y % 400 = 0)

def length (y : Int) : Nat := if isLeap y then 366 else 365

/-- The first day of a year: 365 days for each year before it and a day for each leap year. -/
def start (y : Int) : Int := 365 * y + (y + 3) / 4 - (y + 99) / 100 + (y + 399) / 400

theorem start_add_one (y : Int) : start (y + 1) = start y + length y := by
  unfold start length isLeap
  split <;> simp_all <;> omega

theorem length_le (y : Int) : length y ≤ 366 := by
  unfold length
  split <;> decide

theorem start_mono {x y : Int} (h : x ≤ y) : start x ≤ start y := by
  unfold start
  omega

theorem lt_of_start_lt_start {x y : Int} (h : start x < start y) : x < y := by
  by_cases hxy : x < y
  · exact hxy
  · have := start_mono (Int.not_lt.mp hxy)
    omega

/-- The year of a day. Four centuries have 146097 days, so the quotient is the year or the one
before it. -/
def containing (n : Int) : Int :=
  let y := (400 * n - 800) / 146097
  if start (y + 1) ≤ n then y + 1 else y

theorem start_containing_le (n : Int) : start (containing n) ≤ n := by
  unfold containing
  dsimp only
  split
  · assumption
  · unfold start
    omega

theorem lt_start_containing_add_one (n : Int) : n < start (containing n + 1) := by
  unfold containing
  dsimp only
  split
  · unfold start
    omega
  · omega

theorem containing_eq_iff {n y : Int} : containing n = y ↔ start y ≤ n ∧ n < start (y + 1) := by
  constructor
  · rintro rfl
    exact ⟨start_containing_le n, lt_start_containing_add_one n⟩
  · rintro ⟨hlo, hhi⟩
    have hlo' := start_containing_le n
    have hhi' := lt_start_containing_add_one n
    have h₁ : y < containing n + 1 := lt_of_start_lt_start (by omega)
    have h₂ : containing n < y + 1 := lt_of_start_lt_start (by omega)
    omega

/-- The number of days of a month by its number. Months are numbered from 1, and the empty month 0
stands before January. -/
def monthLength (leap : Bool) : Nat → Nat
  | 2 => if leap then 29 else 28
  | 4 | 6 | 9 | 11 => 30
  | 1 | 3 | 5 | 7 | 8 | 10 | 12 => 31
  | _ => 0

def daysBefore (leap : Bool) : Nat → Nat
  | 0 => 0
  | m + 1 => daysBefore leap m + monthLength leap m

/-- The last of the months 1 to `m` that has begun on day `k` of the year, counted from 0. -/
def lastBegun (leap : Bool) (k : Nat) : Nat → Nat
  | 0 => 0
  | m + 1 => if daysBefore leap (m + 1) ≤ k then m + 1 else lastBegun leap k m

def monthAt (leap : Bool) (k : Nat) : Nat := lastBegun leap k 12

theorem monthLength_pos (leap : Bool) {m : Nat} (hlo : 1 ≤ m) (hhi : m ≤ 12) :
    28 ≤ monthLength leap m := by
  obtain rfl | rfl | rfl | rfl | rfl | rfl | rfl | rfl | rfl | rfl | rfl | rfl :
    m = 1 ∨ m = 2 ∨ m = 3 ∨ m = 4 ∨ m = 5 ∨ m = 6 ∨ m = 7 ∨ m = 8 ∨ m = 9 ∨ m = 10 ∨ m = 11 ∨
      m = 12 := by omega
  all_goals cases leap <;> decide

theorem monthLength_le (leap : Bool) (m : Nat) : monthLength leap m ≤ 31 := by
  unfold monthLength
  split <;> cases leap <;> decide

theorem daysBefore_mono (leap : Bool) {m n : Nat} (h : m ≤ n) :
    daysBefore leap m ≤ daysBefore leap n := by
  induction n with
  | zero => simp_all
  | succ n ih =>
    rcases Nat.lt_or_ge n m with hlt | hge
    · obtain rfl : m = n + 1 := by omega
      exact Nat.le_refl _
    · exact Nat.le_trans (ih hge) (Nat.le_add_right _ _)

theorem daysBefore_thirteen (y : Int) : daysBefore (isLeap y) 13 = length y := by
  unfold length
  cases isLeap y <;> decide

theorem lastBegun_spec (leap : Bool) (k m : Nat) :
    1 ≤ lastBegun leap k (m + 1) ∧ lastBegun leap k (m + 1) ≤ m + 1 ∧
      daysBefore leap (lastBegun leap k (m + 1)) ≤ k ∧
      (k < daysBefore leap (m + 2) → k < daysBefore leap (lastBegun leap k (m + 1) + 1)) := by
  induction m with
  | zero => simp [lastBegun, daysBefore, monthLength]
  | succ m ih =>
    rw [lastBegun]
    split
    · next h => exact ⟨by omega, by omega, h, id⟩
    · next h =>
      obtain ⟨hpos, hle, hbegun, hend⟩ := ih
      exact ⟨hpos, by omega, hbegun, fun _ => hend (Nat.lt_of_not_le h)⟩

theorem one_le_monthAt (leap : Bool) (k : Nat) : 1 ≤ monthAt leap k :=
  (lastBegun_spec leap k 11).1

theorem monthAt_le (leap : Bool) (k : Nat) : monthAt leap k ≤ 12 :=
  (lastBegun_spec leap k 11).2.1

theorem daysBefore_monthAt_le (leap : Bool) (k : Nat) : daysBefore leap (monthAt leap k) ≤ k :=
  (lastBegun_spec leap k 11).2.2.1

theorem lt_daysBefore_monthAt_add_one {leap : Bool} {k : Nat} (h : k < daysBefore leap 13) :
    k < daysBefore leap (monthAt leap k + 1) :=
  (lastBegun_spec leap k 11).2.2.2 h

theorem monthAt_eq_of_le_of_lt {leap : Bool} {k m : Nat} (hm : m ≤ 12)
    (hlo : daysBefore leap m ≤ k) (hhi : k < daysBefore leap (m + 1)) : monthAt leap k = m := by
  have hle := daysBefore_monthAt_le leap k
  have hlt := lt_daysBefore_monthAt_add_one
    (Nat.lt_of_lt_of_le hhi (daysBefore_mono leap (show m + 1 ≤ 13 by omega)))
  rcases Nat.lt_trichotomy (monthAt leap k) m with h | h | h
  · have := daysBefore_mono leap (show monthAt leap k + 1 ≤ m from h)
    omega
  · exact h
  · have := daysBefore_mono leap (show m + 1 ≤ monthAt leap k from h)
    omega

end DayRoster.Year
