import ChainBoard.Board.Basic
import ChainBoard.Figure.Coins
import ChainBoard.Figure.Difficulty
import ChainBoard.Figure.Link
import ChainBoard.Report.Coins
import ChainBoard.Report.Tip
import ChainBoard.Time.Instant

/-!
# The feeds of an explorer

An explorer has two feeds: the report on the tip of the chain and the report on its coins. Each has
its path, the slots that it fills, and the way in which its report becomes the contents of the
slots.

## Main definitions

* `Feed`, `Feed.path`, `Feed.slots`: the feeds
* `TipReport.entries`, `CoinReport.entries`: the contents that a report gives
* `Feed.read`: what the text of a report gives

## Main results

* `TipReport.map_fst_entries`, `CoinReport.map_fst_entries`: a report fills the slots of its feed,
  each once and in order
-/

namespace ChainBoard

/-- The feeds of an explorer. -/
inductive Feed where
  | tip
  | coins
  deriving DecidableEq, Repr

/-- Contents for slots, in the order in which they are put there. -/
abbrev Entries := List (Slot × Content)

namespace Feed

/-- The path of a feed. -/
def path : Feed → String
  | tip => "explorer"
  | coins => "explorer/custodyfees/metrics/chain"

/-- The slots that a feed fills. -/
def slots : Feed → List Slot
  | tip => [.height, .blockId, .difficulty]
  | coins => [.time, .spendable, .locked, .feeDebt, .spent, .feeCollected]

/-- What a feed is called in messages. -/
def subject : Feed → String
  | tip => "general stats"
  | coins => "coin output stats"

/-- The feed that fills a slot. -/
def ofSlot : Slot → Feed
  | .height | .blockId | .difficulty => tip
  | .time | .spendable | .locked | .feeDebt | .spent | .feeCollected => coins

theorem mem_slots_iff (feed : Feed) (slot : Slot) : slot ∈ feed.slots ↔ ofSlot slot = feed := by
  cases feed <;> cases slot <;> decide

end Feed

namespace TipReport

/-- The contents that a report on the tip gives: two links and a text. -/
def entries (report : TipReport) : Entries :=
  [(.height, Link.toBlock report.height),
    (.blockId, Link.toHash report.blockId),
    (.difficulty, .text (Difficulty.readable report.difficulty))]

/-- A report on the tip in one line. -/
def summary (report : TipReport) : String :=
  "explorer at height " ++ toString report.height ++ ", tip " ++ report.blockId

theorem map_fst_entries (report : TipReport) : report.entries.map (·.1) = Feed.tip.slots := rfl

end TipReport

namespace CoinReport

/-- The contents that a report on the coins gives: a time and five amounts. -/
def entries (unit : CoinUnit) (report : CoinReport) : Entries :=
  [(.time, .text (Time.Instant.readable report.time)),
    (.spendable, .text (unit.readable report.spendable)),
    (.locked, .text (unit.readable report.locked)),
    (.feeDebt, .text (unit.readable report.feeDebt)),
    (.spent, .text (unit.readable report.spent)),
    (.feeCollected, .text (unit.readable report.feeCollected))]

/-- A height that may be missing. -/
def describeHeight : Option Nat → String
  | some height => "Some(" ++ toString height ++ ")"
  | none => "None"

/-- A report on the coins in one line. -/
def summary (report : CoinReport) : String :=
  "chain facts at height " ++ describeHeight report.height ++ ", time " ++ toString report.time

theorem map_fst_entries (unit : CoinUnit) (report : CoinReport) :
    (report.entries unit).map (·.1) = Feed.coins.slots := rfl

end CoinReport

namespace Feed

/-- What the text of a report gives: a summary, and contents for the slots of its feed. -/
def read (unit : CoinUnit) (feed : Feed) (text : String) : Except Json.Refusal (String × Entries) :=
  match feed with
  | tip => (TipReport.parse text).map fun report => (report.summary, report.entries)
  | coins => (CoinReport.parse text).map fun report => (report.summary, report.entries unit)

end Feed

end ChainBoard
