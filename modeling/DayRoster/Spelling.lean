import DayRoster.Calendar.Date

/-!
What a written date says, and the grammar of written dates. A `Spelling` holds the fields of a text
and not yet a day: the fields may name a day or a time that does not exist. `Spelling.date?` is the
day that it stands for. The forms of ISO 8601 are tried first, in a fixed order, and the first that
fits the front of the text is kept; the outdated forms are tried only where the text is not one of
ISO 8601 up to its end.
-/

set_option autoImplicit false

namespace DayRoster

inductive DayName
  | calendar (year month day : Nat)
  | week (year week : Nat) (weekday : Weekday)
  | ordinal (year day : Nat)
  | month (year month : Nat)
  | year (year : Nat)
  deriving DecidableEq

/-- The named day. A month or a year stands for its first day. -/
def DayName.date? : DayName → Option Date
  | calendar y m d => Date.ofYmd? y m d
  | week y w weekday => Date.ofIsoWeek? y w weekday
  | ordinal y n => Date.ofOrdinal? y n
  | month y m => Date.ofYmd? y m 1
  | year y => Date.ofYmd? y 1 1

structure ZoneOffset where
  hour : Nat
  minute : Nat
  deriving DecidableEq

def ZoneOffset.isValid (zone : ZoneOffset) : Bool := zone.hour < 24 ∧ zone.minute < 60

/-- A time of day. The fraction of the second is held by its digits. -/
structure ClockTime where
  hour : Nat
  minute : Nat
  second : Nat
  fraction : List Char
  zone : Option ZoneOffset
  deriving DecidableEq

namespace ClockTime

def isMidnight (time : ClockTime) : Bool :=
  time.hour = 24 ∧ time.minute = 0 ∧ time.second = 0 ∧ time.fraction.all (· == '0')

def isWithinDay (time : ClockTime) : Bool :=
  time.hour < 24 ∧ time.minute < 60 ∧ time.second < 60

/-- How many days later a time belongs: 24 o'clock is the start of the next day. Other times from
24 o'clock on do not exist, and the zone is only checked. -/
def dayOffset? (time : ClockTime) : Option Nat :=
  if !time.zone.all ZoneOffset.isValid then none
  else if time.isMidnight then some 1
  else if time.isWithinDay then some 0
  else none

end ClockTime

/-- A written date: a form of ISO 8601, or one of the outdated forms, which all give a year, a
month and a day. -/
inductive Spelling
  | iso (day : DayName) (time : Option ClockTime)
  | outdated (year month day : Nat)
  deriving DecidableEq

namespace Spelling

/-- The day that a spelling stands for, if there is such a day and such a time. -/
def date? : Spelling → Option Date
  | iso day none => day.date?
  | iso day (some time) => do
    let offset ← time.dayOffset?
    let d ← day.date?
    d.addDays? offset
  | outdated year month day => Date.ofYmd? year month day

theorem date?_with_time_eq_some_iff {name : DayName} {time : ClockTime} {d : Date} :
    (iso name (some time)).date? = some d ↔
      ∃ offset : Nat, time.dayOffset? = some offset ∧
        ∃ start, name.date? = some start ∧ start.addDays? offset = some d := by
  simp only [date?, Option.bind_eq_bind, Option.bind_eq_some_iff]

def isOutdated : Spelling → Bool
  | iso _ _ => false
  | outdated _ _ _ => true

end Spelling

namespace Reader

def year : Reader Nat := number 4

def pair : Reader Nat := number 2

/-- A month or a day of the month in the outdated forms has one or two digits. -/
def shortNumber : Reader Nat := number 2 <|> number 1

/-- The forms `YYYY-MM-DD` and `YYYYMMDD`. -/
def calendarDay : Reader DayName :=
  (do
    let y ← year
    let _ ← char '-'
    let m ← pair
    let _ ← char '-'
    let d ← pair
    pure (.calendar y m d)) <|>
  (do
    let y ← year
    let m ← pair
    let d ← pair
    pure (.calendar y m d))

def weekdayDigit : Reader Weekday := do
  let c ← satisfying fun c => '1' ≤ c ∧ c ≤ '7'
  pure (.ofNumber (Decimal.value [c]))

/-- The form `YYYY-Www-D`, in which the dashes, and the day of the week with its dash, may be left
out. A week alone stands for its Monday. -/
def weekDay : Reader DayName := do
  let y ← year
  let _ ← optional (char '-')
  let _ ← satisfying fun c => c = 'W' ∨ c = 'w'
  let w ← pair
  let weekday ← (do let _ ← optional (char '-'); weekdayDigit) <|> pure .monday
  pure (.week y w weekday)

def ordinalDay : Reader DayName := do
  let y ← year
  let _ ← optional (char '-')
  let n ← number 3
  pure (.ordinal y n)

def wholeMonth : Reader DayName := do
  let y ← year
  let _ ← char '-'
  let m ← pair
  pure (.month y m)

def wholeYear : Reader DayName := .year <$> year

def isoDay : Reader DayName :=
  calendarDay <|> weekDay <|> ordinalDay <|> wholeMonth <|> wholeYear

def fraction : Reader (List Char) := do
  let _ ← satisfying fun c => c = '.' ∨ c = ','
  digitRun

def seconds : Reader (Nat × List Char) := do
  let _ ← optional (char ':')
  let s ← pair
  let digits ← fraction <|> pure []
  pure (s, digits)

def minutes : Reader (Nat × Nat × List Char) := do
  let _ ← optional (char ':')
  let m ← pair
  let rest ← seconds <|> pure (0, [])
  pure (m, rest)

def zoneOffset : Reader ZoneOffset :=
  (do
    let _ ← char 'Z'
    pure ⟨0, 0⟩) <|>
  (do
    let _ ← satisfying fun c => c = '+' ∨ c = '-'
    let h ← pair
    let m ← (do let _ ← optional (char ':'); pair) <|> pure 0
    pure ⟨h, m⟩)

/-- The letter `T` and a time of day. Parts that are left out count as 0. -/
def clockTime : Reader ClockTime := do
  let _ ← satisfying fun c => c = 'T' ∨ c = 't'
  let h ← pair
  let (m, s, digits) ← minutes <|> pure (0, 0, [])
  let zone ← optional zoneOffset
  pure ⟨h, m, s, digits, zone⟩

/-- A date of ISO 8601 that takes up the whole text. -/
def isoDate : Reader Spelling := do
  let day ← isoDay
  let time ← optional clockTime
  atEnd
  pure (.iso day time)

def slashedDate : Reader Spelling := do
  let y ← year
  let _ ← char '/'
  let m ← shortNumber
  let _ ← char '/'
  let d ← shortNumber
  pure (.outdated y m d)

def monthFirstDate : Reader Spelling := do
  let m ← shortNumber
  let _ ← char '/'
  let d ← shortNumber
  let _ ← char '/'
  let y ← year
  pure (.outdated y m d)

def looseDate : Reader Spelling := do
  let y ← year
  let _ ← char '-'
  let m ← shortNumber
  let _ ← char '-'
  let d ← shortNumber
  pure (.outdated y m d)

/-- The form `YYYYMM`, which stands for the first day of the month. -/
def compactMonth : Reader Spelling := do
  let y ← year
  let m ← pair
  pure (.outdated y m 1)

def outdatedDate : Reader Spelling := do
  let date ← slashedDate <|> monthFirstDate <|> looseDate <|> compactMonth
  atEnd
  pure date

end Reader

def Spelling.read? (text : String) : Option Spelling :=
  ((Reader.isoDate <|> Reader.outdatedDate).run text.toList).map Prod.fst

inductive DateError
  | unreadable
  | impossible (text : String)
  deriving DecidableEq

def DateError.message : DateError → String
  | unreadable => "no known form of a date"
  | impossible text => s!"{text} is not a day of the calendar"

def Date.parse (text : String) : Except DateError Date :=
  match Spelling.read? text with
  | none => .error .unreadable
  | some spelling =>
    match spelling.date? with
    | none => .error (.impossible text)
    | some d => .ok d

end DayRoster
