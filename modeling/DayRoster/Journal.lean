import DayRoster.Agenda

/-!
What is put on record while rules are read and applied. Every record has a severity and belongs to
a channel; a filter shows the records of some channels up to a severity.
-/

set_option autoImplicit false

namespace DayRoster

/-- The severities of records, most severe first. -/
inductive Severity
  | error
  | warning
  | information
  | debugging
  deriving DecidableEq

namespace Severity

def rank : Severity → Nat
  | error => 0
  | warning => 1
  | information => 2
  | debugging => 3

def label : Severity → String
  | error => "ERROR"
  | warning => "WARN"
  | information => "INFO"
  | debugging => "DEBUG"

end Severity

/-- What is put on record. -/
inductive Event
  | outdatedDate
  | rejectedLine (fault : LineFault)
  | rejectedText (rules errors : Nat)
  | applyingRule (rule : Rule)
  | reversedSpan (start stop : Date)
  | selectedDays (count : UInt32)
  | selectionExtent (least greatest : Option Date)
  deriving DecidableEq

namespace Event

def severity : Event → Severity
  | outdatedDate => .warning
  | selectionExtent _ _ => .information
  | rejectedLine _ | rejectedText _ _ | applyingRule _ | reversedSpan _ _ | selectedDays _ =>
    .debugging

def channel : Event → String
  | outdatedDate | rejectedLine _ => "day_rules_syntax::parser"
  | rejectedText _ _ | selectedDays _ => "day_rules::rule_book"
  | applyingRule _ | reversedSpan _ _ => "day_rules::date_db"
  | selectionExtent _ _ => "calendar"

def optionalDate : Option Date → String
  | none => "None"
  | some d => "Some(" ++ d.text ++ ")"

def message : Event → String
  | outdatedDate => "Found a date outside of ISO 8601, prefer the YYYY-MM-DD format"
  | rejectedLine fault => "rejected rule: " ++ fault.message
  | rejectedText rules errors => s!"Rejecting {rules} rules because of {errors} errors"
  | applyingRule rule => "Applying rule: " ++ rule.text
  | reversedSpan start stop => "Ignoring reversed range from " ++ start.text ++ " to " ++ stop.text
  | selectedDays count => s!"Selected {count.toNat} days"
  | selectionExtent least greatest =>
    "Selection spans from " ++ optionalDate least ++ " to " ++ optionalDate greatest

end Event

namespace Journal

/-- The record of an outdated date, which is made once only. -/
def onOutdated (reading : Rule.LineReading) (warned : Bool) : List Event :=
  if reading.outdated && !warned then [.outdatedDate] else []

def onRejected (reading : Rule.LineReading) : List Event :=
  match reading.error? with
  | some e => [.rejectedLine e.fault]
  | none => []

/-- The records of reading lines in order, after a run that has `warned` of outdated dates or has
not. -/
def ofReadings : Bool → List Rule.LineReading → List Event
  | _, [] => []
  | warned, reading :: rest =>
    onOutdated reading warned ++ onRejected reading ++
      ofReadings (warned || reading.outdated) rest

def ofText (text : String) : List Event :=
  let (rules, errors) := Rule.parseAll text
  ofReadings false (Rule.readLines text) ++
    if errors.isEmpty then [] else [.rejectedText rules.length errors.length]

def ofRule (rule : Rule) : List Event :=
  .applyingRule rule :: if rule.stop < rule.start then [.reversedSpan rule.start rule.stop] else []

def ofSelection (roster : Roster) (person : String) (agenda : Agenda) : List Event :=
  (roster.rulesOf person).flatMap ofRule ++
    [.selectedDays (roster.select person agenda).enabledCount]

/-- Shows the records of the channels whose names begin with a text, up to a severity. Nothing is
shown if there is none. -/
structure Filter where
  channels : String := ""
  threshold : Option Severity := some .error
  deriving DecidableEq

namespace Filter

def threshold? : String → Option (Option Severity)
  | "off" => some none
  | "error" => some (some .error)
  | "warn" => some (some .warning)
  | "info" => some (some .information)
  | "debug" => some (some .debugging)
  | _ => none

/-- Reads a filter: a threshold, or the beginning of the names of channels, an equals sign and a
threshold. These are two of the forms that the variable `RUST_LOG` may have, and thresholds are
known by their lower-case names only, `trace` left out. Every other text, such as a list with commas
or a channel by itself, counts as the default, by which only errors are shown. -/
def ofText (text : String) : Filter :=
  match text.toList.splitOn '=' with
  | [word] =>
    match threshold? (String.ofList word) with
    | some threshold => { threshold }
    | none => {}
  | [channels, word] =>
    match threshold? (String.ofList word) with
    | some threshold => ⟨String.ofList channels, threshold⟩
    | none => {}
  | _ => {}

def shows (filter : Filter) (event : Event) : Bool :=
  filter.channels.toList.isPrefixOf event.channel.toList &&
    filter.threshold.any fun threshold => event.severity.rank ≤ threshold.rank

end Filter

end Journal

end DayRoster
