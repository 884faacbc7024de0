import DayRoster.Spelling
import DayRoster.WeekPattern

/-!
Rules, and how they are written, one on a line. For a person, a span of days is included or
excluded, on all days or on some days of the week. Each line that is not blank is a rule or an
error, and no line has a say in how another one is read. A line is judged by its tokens, in the
order of the causes of `LineFault`.
-/

set_option autoImplicit false

namespace DayRoster

inductive Effect
  | inclusion
  | exclusion
  deriving DecidableEq

namespace Effect

def keyword : Effect → String
  | inclusion => "include"
  | exclusion => "exclude"

def ofKeyword? (word : String) : Option Effect :=
  if word = "include" then some inclusion
  else if word = "exclude" then some exclusion
  else none

def enables : Effect → Bool
  | inclusion => true
  | exclusion => false

theorem ofKeyword?_eq_some_iff {word : String} {effect : Effect} :
    ofKeyword? word = some effect ↔ word = effect.keyword := by
  cases effect <;> grind [ofKeyword?, keyword]

end Effect

/-- A rule for a person. The span goes from `start` to `stop`, both included; a span in which
`stop` comes first is empty. -/
@[ext]
structure Rule where
  name : String
  effect : Effect
  start : Date
  stop : Date
  weekdays : WeekPattern
  deriving DecidableEq

namespace Rule

def filter? (rule : Rule) : Option WeekPattern :=
  if rule.weekdays.isEmpty then none else some rule.weekdays

def text (rule : Rule) : String :=
  rule.name ++ " " ++ rule.effect.keyword ++ " " ++ rule.start.text ++ " " ++ rule.stop.text ++
    (if rule.weekdays.isEmpty then "" else " " ++ rule.weekdays.text)

end Rule

inductive LineFault
  | tooFewTokens
  | tooManyTokens
  | unknownEffect (found : String)
  | invalidStart (found : String)
  | invalidStop (found : String)
  deriving DecidableEq

namespace LineFault

def found? : LineFault → Option String
  | tooFewTokens | tooManyTokens => none
  | unknownEffect found | invalidStart found | invalidStop found => some found

def message : LineFault → String
  | tooFewTokens => "Too few tokens"
  | tooManyTokens => "Too many tokens, the weekday mask must be a single token"
  | unknownEffect found => s!"The second token must be 'include' or 'exclude'. Found '{found}'"
  | invalidStart found => s!"Invalid start date: {found}"
  | invalidStop found => s!"Invalid end date: {found}"

end LineFault

/-- A line that is no rule, without the blanks at its ends. -/
@[ext]
structure LineError where
  line : String
  fault : LineFault
  deriving DecidableEq

namespace LineError

def message (e : LineError) : String := e.fault.message

def text (e : LineError) : String := s!"{e.message}: `{e.line}`"

/-- A report of errors, in which each takes two lines. -/
def report (errors : List LineError) : String :=
  "\n".intercalate (errors.map fun e => e.line ++ "\n  " ++ e.message)

end LineError

namespace Rule

/-- Reading a line stops at its first fault, and notes whether a date has an outdated form. -/
abbrev LineReader (α : Type) : Type := ExceptT LineFault (StateM Bool) α

def readDate (token : String) (fault : String → LineFault) : LineReader Date := do
  match Spelling.read? token with
  | none => throw (fault token)
  | some spelling =>
    if spelling.isOutdated then
      set true
    match spelling.date? with
    | none => throw (fault token)
    | some d => pure d

/-- The rule of the tokens of a line: a name, an effect, the first and the last day, and possibly a
mask. -/
def readTokens : List String → LineReader Rule
  | name :: word :: first :: last :: rest => do
    if 1 < rest.length then
      throw .tooManyTokens
    match Effect.ofKeyword? word with
    | none => throw (.unknownEffect word)
    | some effect =>
      let start ← readDate first .invalidStart
      let stop ← readDate last .invalidStop
      let weekdays := WeekPattern.ofMask (rest.headD "").toList
      pure ⟨name, effect, start, stop, weekdays⟩
  | _ => throw .tooFewTokens

/-- What a line was read as, and whether an outdated form of a date was read on the way. -/
structure LineReading where
  outcome : Except LineError Rule
  outdated : Bool

def readLine (text : List Char) : LineReading :=
  let line := Text.trim text
  let (outcome, outdated) := (readTokens ((Text.tokens line).map String.ofList)).run.run false
  ⟨outcome.mapError fun fault => ⟨String.ofList line, fault⟩, outdated⟩

def parse (line : String) : Except LineError Rule := (readLine line.toList).outcome

def readLines (text : String) : List LineReading := (Text.lines text.toList).map readLine

def LineReading.rule? (reading : LineReading) : Option Rule := reading.outcome.toOption

def LineReading.error? (reading : LineReading) : Option LineError :=
  match reading.outcome with
  | .error e => some e
  | .ok _ => none

def parseAll (text : String) : List Rule × List LineError :=
  let readings := readLines text
  (readings.filterMap LineReading.rule?, readings.filterMap LineReading.error?)

end Rule

end DayRoster
