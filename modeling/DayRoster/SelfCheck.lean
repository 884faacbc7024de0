import DayRoster.Agenda

/-!
A check of the library on a given text: what is read is printed, read again and selected, and the
parts have to agree with each other.
-/

set_option autoImplicit false

namespace DayRoster

/-- A text and a person to select, the number of the first day of the week, which counts modulo 7,
and how far from the first touched day to look. -/
structure Scenario where
  text : String
  person : String
  weekStart : UInt8
  probe : Int32

inductive Disagreement
  | unreadable (errors : List LineError)
  | readsOtherwise
  | miscounted
  | reversedExtent
  | outsideExtent
  | probeEnabled
  | enabledUntouched
  | halfOpen
  deriving DecidableEq

def Disagreement.message : Disagreement → String
  | unreadable errors => LineError.report errors
  | readsOtherwise => "the printed rules differ from the rules that were read"
  | miscounted => "the number of enabled days is wrong"
  | reversedExtent => "the extent is reversed"
  | outsideExtent => "an enabled day is outside of the extent"
  | probeEnabled => "a day outside of the extent is enabled"
  | enabledUntouched => "a day is enabled and none is touched"
  | halfOpen => "half-open range"

inductive Verdict
  /-- The text is no roster, or has a rule that is too long. -/
  | skipped
  | consistent
  | inconsistent (disagreement : Disagreement)
  deriving DecidableEq

namespace Scenario

/-- Rules that are longer than this number of days are not applied. -/
def longestSpan : Int := 3660

def isTooLong (rule : Rule) : Bool := longestSpan < rule.stop.dayNumber - rule.start.dayNumber

def settings (scenario : Scenario) : Settings :=
  { weekStart := .ofNumber scenario.weekStart.toNat }

/-- The probed day, less than 4000 days away from a day, or that day where there is none. -/
def probedDay (scenario : Scenario) (d : Date) : Date :=
  (d.addDays? (scenario.probe.toInt.tmod 4000)).getD d

def ensure (condition : Bool) (disagreement : Disagreement) : Except Disagreement Unit :=
  if condition then .ok () else .error disagreement

def checkText (roster : Roster) : Except Disagreement Unit :=
  match Roster.parse roster.text with
  | .error errors => .error (.unreadable errors)
  | .ok reread => ensure (roster = reread) .readsOtherwise

def checkAgenda (scenario : Scenario) (agenda : Agenda) : Except Disagreement Unit := do
  ensure (agenda.enabledCount.toNat = agenda.enabledDays.length) .miscounted
  match agenda.firstTouched?, agenda.lastTouched? with
  | some least, some greatest =>
    ensure (least ≤ greatest) .reversedExtent
    ensure (agenda.enabledDays.all fun d => least ≤ d ∧ d ≤ greatest) .outsideExtent
    let probed := scenario.probedDay least
    ensure ((least ≤ probed ∧ probed ≤ greatest) ∨ ¬ agenda.isEnabled probed) .probeEnabled
  | none, none => ensure (agenda.enabledCount = 0) .enabledUntouched
  | _, _ => .error .halfOpen

def verdict (scenario : Scenario) : Verdict :=
  match Roster.parse scenario.text with
  | .error _ => .skipped
  | .ok roster =>
    if roster.rules.any isTooLong then .skipped
    else
      let agenda := roster.select scenario.person (Agenda.withSettings {} scenario.settings)
      match checkText roster *> checkAgenda scenario agenda with
      | .ok _ => .consistent
      | .error disagreement => .inconsistent disagreement

end Scenario

end DayRoster
