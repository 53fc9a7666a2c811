import ChainBoard.Time.Instant

/-!
# Log records

A run writes log records, each with a level, the part of the program that wrote it, and a text. A
record is shown on a line of its own, behind the time at which it was written; where its text has
line breaks, the further lines are indented. Colours, which a terminal may add, are left out.

## Main definitions

* `Log.Level`, `Log.Origin`, `Log.Entry`: records
* `Log.Entry.lines`: the lines of a record
-/

namespace ChainBoard.Log

/-- How serious a record is. -/
inductive Level where
  | error
  | warn
  | info
  | debug
  deriving DecidableEq, Repr

namespace Level

/-- The name of a level. -/
def name : Level → String
  | error => "ERROR"
  | warn => "WARN"
  | info => "INFO"
  | debug => "DEBUG"

/-- The levels counted from the most serious one. -/
def rank : Level → Nat
  | error => 1
  | warn => 2
  | info => 3
  | debug => 4

end Level

/-- The part of the program that wrote a record. -/
inductive Origin where
  /-- The run as a whole. -/
  | program
  /-- The exchange with the explorer. -/
  | explorer
  /-- The loading of reports. -/
  | stats
  deriving DecidableEq, Repr

/-- The name under which a part of the program is shown. -/
def Origin.target : Origin → String
  | program => "explorer_stats"
  | explorer => "explorer_stats::explorer"
  | stats => "explorer_stats::stats"

/-- A log record. -/
structure Entry where
  level : Level
  origin : Origin
  text : String
  deriving DecidableEq, Repr

namespace Entry

/-- The first line of a record up to its text: when it was written, in seconds since the beginning
of 1970, the level in a column of five, and the origin. -/
def head (now : Nat) (entry : Entry) : String :=
  let level := String.ofList (entry.level.name.toList.rightpad 5 ' ')
  "[" ++ Time.Instant.compact now ++ " " ++ level ++ " " ++ entry.origin.target ++ "] "

/-- The lines of a record: further lines of its text are indented by four spaces. -/
def lines (now : Nat) (entry : Entry) : List String :=
  match entry.text.toList.splitOn '\n' with
  | [] => [entry.head now]
  | first :: further =>
    (entry.head now ++ String.ofList first) ::
      further.map fun line => "    " ++ String.ofList line

end Entry

end ChainBoard.Log
