import DayRoster.Journal
import DayRoster.Page

/-!
The command line: it reads the rules in a file, selects a person, and prints the calendar of that
person. Either the whole calendar is printed or nothing but a complaint.
-/

set_option autoImplicit false

namespace DayRoster

/-- What a path leads to. -/
inductive FileState
  | missing
  | directory
  | content (bytes : ByteArray)

inductive FileFault
  | missing
  | directory
  | notUtf8
  deriving DecidableEq

def FileFault.message : FileFault → String
  | missing => "No such file or directory (os error 2)"
  | directory => "Is a directory (os error 21)"
  | notUtf8 => "stream did not contain valid UTF-8"

def FileState.text : FileState → Except FileFault String
  | missing => .error .missing
  | directory => .error .directory
  | content bytes =>
    match String.fromUTF8? bytes with
    | none => .error .notUtf8
    | some text => .ok text

namespace Command

structure Request where
  path : String
  person : String
  deriving DecidableEq

/-- The request that the arguments make. Without a person, the rules for everyone are selected;
further arguments have no meaning. -/
def Request.ofArguments? : List String → Option Request
  | [] => none
  | [path] => some ⟨path, Roster.everyone⟩
  | path :: person :: _ => some ⟨path, person⟩

def usage : String := "Usage: ./calendar <RULES_FILE> [PERSON]"

/-- The end of a run: its exit code, what it printed, and what was put on record. -/
structure Outcome where
  code : Nat
  output : String
  complaint : String
  events : List Event
  deriving DecidableEq

/-- Lines as a text in which every line ends with a line feed. -/
def ofLines (lines : List String) : String := String.join (lines.map fun line => line ++ "\n")

def failure (complaint : String) (events : List Event) : Outcome :=
  ⟨1, "", ofLines [complaint], events⟩

def peopleLine (roster : Roster) : String := " - people: " ++ ", ".intercalate roster.people

def selectedLine (person : String) (count : UInt32) : String :=
  s!" - selected: {person} ({count.toNat} days)"

def block (page : Page) : List String := "---" :: page.lines

def calendar (roster : Roster) (person : String) : List String :=
  let agenda := roster.select person {}
  peopleLine roster :: selectedLine person agenda.enabledCount ::
    (Page.ofAgenda {} agenda).flatMap block

def run (request : Request) (file : FileState) : Outcome :=
  match file.text with
  | .error fault => failure ("could not read " ++ request.path ++ ": " ++ fault.message) []
  | .ok text =>
    match Roster.parse text with
    | .error errors => failure (LineError.report errors) (Journal.ofText text)
    | .ok roster =>
      let agenda := roster.select request.person {}
      ⟨0, ofLines (calendar roster request.person), "",
        Journal.ofText text ++ Journal.ofSelection roster request.person {} ++
          [.selectionExtent agenda.firstTouched? agenda.lastTouched?]⟩

end Command

end DayRoster
