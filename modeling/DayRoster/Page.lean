import DayRoster.Agenda
import DayRoster.Calendar.Month

/-!
The calendar of an agenda, one page for each month that its extent touches. A page has a title, a
line with the days of the week and a line for each week. Every day takes a cell of four characters;
a day that is not enabled stands in brackets.
-/

set_option autoImplicit false

namespace DayRoster

/-- A place in a week of a page: outside of the month, or a day of it. -/
inductive Cell
  | outside
  | enabled (day : Nat)
  | disabled (day : Nat)
  deriving DecidableEq

def Cell.chars : Cell → List Char
  | outside => [' ', ' ', ' ', ' ']
  | enabled day => ' ' :: Decimal.aligned 2 day ++ [' ']
  | disabled day => '[' :: Decimal.aligned 2 day ++ [']']

/-- The calendar of a month. -/
structure Page where
  month : Month
  title : String
  weekdays : List Weekday
  weeks : List (List Cell)
  deriving DecidableEq

namespace Page

def cell (agenda : Agenda) (month : Month) : Option Nat → Cell
  | none => .outside
  | some day =>
    if (month.day? day).any agenda.isEnabled then .enabled day else .disabled day

def ofMonth (settings : Settings) (agenda : Agenda) (month : Month) : Page where
  month := month
  title := month.name settings.locale ++ " " ++ String.ofList (Decimal.signed 1 month.year)
  weekdays := settings.weekdays
  weeks := (month.weeks settings.weekStart).map fun week => week.map (cell agenda month)

def ofAgenda (settings : Settings) (agenda : Agenda) : List Page :=
  (Month.between agenda.firstTouched? agenda.lastTouched?).map (ofMonth settings agenda)

def heading (day : Weekday) : List Char := ' ' :: day.name.toList.take 2 ++ [' ']

/-- The line of a week, without the blanks at its end. -/
def weekLine (week : List Cell) : String := String.ofList (Text.trimEnd (week.flatMap Cell.chars))

def lines (page : Page) : List String :=
  page.title :: String.ofList (page.weekdays.flatMap heading) :: page.weeks.map weekLine

end Page

end DayRoster
