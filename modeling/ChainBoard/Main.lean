import Mathlib.Tactic.DeprecateTo
import ChainBoard.Program

/-!
# The command line

The program takes its settings from its first argument and its environment, writes its log to
standard error and shows boards on standard output. No transport is built in, so that it finds
nothing listening at any address; another outer layer gives `Program.run` another network. Nor is
there a reader of patterns: a pattern for records is a text that they contain.
-/

namespace ChainBoard

/-- The variables that a run looks at, as far as they are set. -/
def readVariables : IO (List (String × String)) := do
  (Settings.names ++ [Program.logName]).filterMapM fun name => do
    return (← IO.getEnv name).map fun value => (name, value)

/-- The seconds since the beginning of 1970. -/
def readClock : IO Nat := do
  return (← Std.Time.Timestamp.now).toSecondsSinceUnixEpoch.val.toNat

/-- A pattern stands for the texts that contain it. -/
def Log.Patterns.containing : Log.Patterns := fun pattern =>
  some fun text => text.contains pattern

/-- Shows a report: log, then boards. -/
def showReport (report : Program.Report) (filter : Log.Filter) : IO Unit := do
  for entry in report.visibleLog filter do
    for line in entry.lines (← readClock) do
      IO.eprintln line
  IO.print report.shown
  (← IO.getStdout).flush

/-- Waits for a number of seconds. -/
def pause : Nat → IO Unit
  | 0 => pure ()
  | seconds + 1 => do
    IO.sleep 1000
    pause seconds

end ChainBoard

open ChainBoard

/-- Runs the program. Behind each pause it adds one board more. -/
def main (arguments : List String) : IO UInt32 := do
  let values ← readVariables
  let environment := fun name => values.lookup name
  let network := Http.Network.silent
  let filter := Program.filter .containing environment
  let report := Program.run arguments environment network
  showReport report filter
  match report.ending, Settings.resolve arguments.head? environment with
  | .watching seconds, .ok settings =>
    repeat
      pause seconds
      showReport (report.cleared.next settings network) filter
    return 0
  | .exit code, _ => return code.toUInt32
  -- only a run with settings pauses
  | .watching _, .error _ => return 0
