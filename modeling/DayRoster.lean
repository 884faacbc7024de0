import DayRoster.Main
import DayRoster.Proofs.CanonicalText
import DayRoster.Proofs.CommandRun
import DayRoster.Proofs.DaySpellings
import DayRoster.Proofs.ErrorReport
import DayRoster.Proofs.LineByLine
import DayRoster.Proofs.LineTokens
import DayRoster.Proofs.MonthSpan
import DayRoster.Proofs.OrderedChoice
import DayRoster.Proofs.OutdatedDates
import DayRoster.Proofs.PatternSet
import DayRoster.Proofs.People
import DayRoster.Proofs.PrintedCalendar
import DayRoster.Proofs.PrintedDates
import DayRoster.Proofs.PrintedMonth
import DayRoster.Proofs.RangeWrites
import DayRoster.Proofs.RuleChanges
import DayRoster.Proofs.RuleEffects
import DayRoster.Proofs.TimeOfDay
import DayRoster.Proofs.Verdict
import DayRoster.Proofs.WeekStart
import DayRoster.Proofs.WeekdayCycle
import DayRoster.Proofs.WholeWeeks
import DayRoster.Proofs.WrittenDays
