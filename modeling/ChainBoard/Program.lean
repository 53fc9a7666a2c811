import ChainBoard.Explorer.Load
import ChainBoard.Log.Filter
import ChainBoard.Time.Period

/-!
# A run of the program

A run reads its settings, says which explorer it uses, and shows a board. With a refresh period it
says so first, and shows boards for ever, each with an empty line behind it, and pauses between two
of them. With invalid settings it says what is wrong and does nothing else. Which of its records are
shown is set by a variable of its own.

## Main definitions

* `Program.cycle`: one board
* `Program.Ending`: how a run ends
* `Program.watch`: a run with a refresh period, up to any of its pauses
* `Program.run`: a run up to its end or its first pause
* `Program.filter`: which records of a run are shown
-/

namespace ChainBoard.Program

/-- How a run ends. -/
inductive Ending where
  /-- The run is over, with an exit code. -/
  | exit (code : Nat)
  /-- The run pauses for a number of seconds before the next board. -/
  | watching (seconds : Nat)
  deriving DecidableEq, Repr

/-- What a run has done: the requests it sent, the records it wrote, what it showed, and how it
ended. -/
structure Report where
  requests : List Http.Request
  log : List Log.Entry
  shown : String
  ending : Ending

/-- The exit code of a run with invalid settings. -/
def invalidSettings : Nat := 2

/-- The variable that says which records are shown. -/
def logName : String := "RUST_LOG"

/-- The record about the explorer that is used. -/
def announcement (settings : Settings) : Log.Entry :=
  ⟨.info, .program, "Using explorer API at " ++ settings.address ++ "."⟩

/-- The record about the refresh period. -/
def refreshing (seconds : Nat) : Log.Entry :=
  ⟨.info, .program, "Refreshing every " ++ Time.Period.readable seconds ++ "."⟩

/-- One board, from blank to shown. -/
def cycle (settings : Settings) (network : Http.Network) : Loaded × String :=
  let client := Client.ofAddress settings.address settings.userAgent
  let loaded := client.loadBoard network settings.coins
  (loaded, ((Board.blank settings.linkBase).after loaded).render)

/-- One board more, with an empty line behind it. -/
def Report.next (settings : Settings) (report : Report) (network : Http.Network) : Report :=
  let (loaded, shown) := cycle settings network
  { report with
    requests := report.requests ++ loaded.requests
    log := report.log ++ loaded.log
    shown := report.shown ++ (shown ++ "\n") }

/-- The report of what comes next, of which nothing is done yet. -/
def Report.cleared (report : Report) : Report :=
  { report with requests := [], log := [], shown := "" }

/-- A run with settings and a refresh period, up to the pause after as many boards as there are
networks: each board is loaded on the network as it then is. -/
def watch (settings : Settings) (seconds : Nat) (networks : List Http.Network) : Report :=
  networks.foldl (Report.next settings)
    ⟨[], [announcement settings, refreshing seconds], "", .watching seconds⟩

/-- A run with settings, up to its end or its first pause. -/
def runWith (settings : Settings) (network : Http.Network) : Report :=
  match settings.refresh with
  | none =>
    let (loaded, shown) := cycle settings network
    ⟨loaded.requests, announcement settings :: loaded.log, shown, .exit 0⟩
  | some seconds => watch settings seconds [network]

/-- A run with arguments and an environment, up to its end or its first pause. -/
def run (arguments : List String) (environment : String → Option String) (network : Http.Network) :
    Report :=
  match Settings.resolve arguments.head? environment with
  | .error fault =>
    ⟨[], [⟨.error, .program, (Fault.settings fault).message⟩], "", .exit invalidSettings⟩
  | .ok settings => runWith settings network

/-- Which records are shown in an environment: those down to `info` when nothing is set. -/
def filter (patterns : Log.Patterns) (environment : String → Option String) : Log.Filter :=
  Log.Filter.ofSetting patterns ((environment logName).getD "info")

/-- The records of a run that are shown. -/
def Report.visibleLog (report : Report) (filter : Log.Filter) : List Log.Entry :=
  report.log.filter filter.isShown

end ChainBoard.Program
