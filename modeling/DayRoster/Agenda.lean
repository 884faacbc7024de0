import DayRoster.Calendar.Settings
import DayRoster.Rule
import Std.Data.ExtTreeMap

/-!
The state of each day, written by rules in order. A later write to a day replaces an earlier one.
An agenda also keeps the extent of the days that it was asked to write, whether or not a filter let
them be written. A roster is a list of rules for several people: selecting a person writes an agenda
afresh from the rules for that person and the rules for everyone, in their order.
-/

set_option autoImplicit false

namespace DayRoster

@[ext]
structure Extent where
  least : Date
  greatest : Date
  deriving DecidableEq

/-- The extent of some days, if there are any, and of one more day. -/
def Extent.touch : Option Extent → Date → Option Extent
  | none, d => some ⟨d, d⟩
  | some extent, d => some ⟨min extent.least d, max extent.greatest d⟩

/-- The days that were written, enabled or not, and the extent of the days that were touched. -/
@[ext]
structure Agenda where
  days : Std.ExtTreeMap Date Bool := ∅
  extent : Option Extent := none
  settings : Settings := {}
  deriving DecidableEq

namespace Agenda

def withSettings (agenda : Agenda) (settings : Settings) : Agenda := { agenda with settings }

def clear (agenda : Agenda) : Agenda := { agenda with days := ∅, extent := none }

/-- Does a filter let a day be written? No filter and the empty one let every day pass. -/
def admits (agenda : Agenda) (filter : Option WeekPattern) (d : Date) : Bool :=
  filter.all fun weekdays => weekdays.admits (agenda.settings.position d)

/-- Touches a day, and writes its state if the filter lets it pass. -/
def write (agenda : Agenda) (d : Date) (enabled : Bool) (filter : Option WeekPattern) : Agenda :=
  { agenda with
    days := if agenda.admits filter d then agenda.days.insert d enabled else agenda.days
    extent := Extent.touch agenda.extent d }

/-- Touches the days from `start` to `stop` in order, and writes those that the filter lets
pass. -/
def writeRange (agenda : Agenda) (start stop : Date) (enabled : Bool)
    (filter : Option WeekPattern) : Agenda :=
  (Date.range start stop).foldl (fun agenda d => agenda.write d enabled filter) agenda

def enableOnly (agenda : Agenda) (start stop : Date) : Agenda :=
  agenda.clear.writeRange start stop true none

def apply (agenda : Agenda) (rule : Rule) : Agenda :=
  agenda.writeRange rule.start rule.stop rule.effect.enables rule.filter?

def state? (agenda : Agenda) (d : Date) : Option Bool := agenda.days[d]?

def isEnabled (agenda : Agenda) (d : Date) : Bool := (agenda.state? d).getD false

def firstTouched? (agenda : Agenda) : Option Date := agenda.extent.map Extent.least

def lastTouched? (agenda : Agenda) : Option Date := agenda.extent.map Extent.greatest

def enabledDays (agenda : Agenda) : List Date := (agenda.days.toList.filter Prod.snd).map Prod.fst

/-- The number of enabled days, as 32 bits hold it. -/
def enabledCount (agenda : Agenda) : UInt32 := .ofNat (agenda.days.toList.countP Prod.snd)

theorem state?_write (agenda : Agenda) (d e : Date) (enabled : Bool)
    (filter : Option WeekPattern) :
    (agenda.write d enabled filter).state? e =
      if d = e ∧ agenda.admits filter d then some enabled else agenda.state? e := by
  by_cases h : agenda.admits filter d <;>
    simp [write, state?, h, Std.ExtTreeMap.getElem?_insert]

@[simp]
theorem settings_write (agenda : Agenda) (d : Date) (enabled : Bool)
    (filter : Option WeekPattern) : (agenda.write d enabled filter).settings = agenda.settings :=
  rfl

@[simp]
theorem state?_clear (agenda : Agenda) (d : Date) : agenda.clear.state? d = none := by
  simp [clear, state?]

@[simp]
theorem settings_clear (agenda : Agenda) : agenda.clear.settings = agenda.settings := rfl

end Agenda

@[ext]
structure Roster where
  rules : List Rule
  deriving DecidableEq

namespace Roster

/-- Rules with this name apply to every person. -/
def everyone : String := "all"

/-- Reads a roster from a text. A single line that is no rule refuses the whole text, with the
errors of all such lines. -/
def parse (text : String) : Except (List LineError) Roster :=
  match Rule.parseAll text with
  | (rules, []) => .ok ⟨rules⟩
  | (_, errors) => .error errors

def people (roster : Roster) : List String := (roster.rules.map Rule.name).eraseDups

def rulesOf (roster : Roster) (person : String) : List Rule :=
  roster.rules.filter fun rule => rule.name = everyone ∨ rule.name = person

/-- The agenda of a person: all days are forgotten, and the rules for the person applied. -/
def select (roster : Roster) (person : String) (agenda : Agenda) : Agenda :=
  (roster.rulesOf person).foldl Agenda.apply agenda.clear

def text (roster : Roster) : String := "\n".intercalate (roster.rules.map Rule.text)

end Roster

end DayRoster
