import DayRoster.Command

/-!
The program `calendar`: looks at the file that is asked for, runs the request, and hands over what
it printed.
-/

set_option autoImplicit false

namespace DayRoster.Command

def look (path : String) : IO FileState := do
  try
    let bytes ← IO.FS.readBinFile path
    pure (.content bytes)
  catch e =>
    match e with
    | .noFileOrDirectory _ _ _ => pure .missing
    | .inappropriateType _ _ _ => pure .directory
    | _ => throw e

def recordLine (event : Event) : String :=
  "[" ++ event.severity.label ++ " " ++ event.channel ++ "] " ++ event.message

end DayRoster.Command

open DayRoster in
/-- Runs the command line. Without arguments it explains its use. -/
def main (arguments : List String) : IO UInt32 := do
  match Command.Request.ofArguments? arguments with
  | none =>
    IO.eprintln Command.usage
    pure 101
  | some request =>
    let filter := ((← IO.getEnv "RUST_LOG").map Journal.Filter.ofText).getD {}
    let outcome := Command.run request (← Command.look request.path)
    for event in outcome.events.filter filter.shows do
      IO.eprintln (Command.recordLine event)
    IO.eprint outcome.complaint
    IO.print outcome.output
    pure (.ofNat outcome.code)
