import ChainBoard.Json.Document

/-!
# Reports on the coins of the chain

The report on the coins gives the time of the last block and how many coins can be spent, are
locked, are owed as custody fees, have been spent, and have been collected as custody fees. It may
also give the height of the chain.

## Main definitions

* `CoinReport`: the report
* `CoinReport.schema`: how it is written
* `CoinReport.parse`: reads a text that holds a report
-/

namespace ChainBoard

/-- What an explorer says about the coins of the chain. All amounts are in base units. -/
structure CoinReport where
  height : Option Nat
  time : Nat
  spendable : Nat
  locked : Nat
  feeDebt : Nat
  spent : Nat
  feeCollected : Nat
  deriving DecidableEq, Repr

namespace CoinReport

/-- The fields of the report, as they are written. -/
@[reducible] def fields : List Json.Field :=
  [⟨"height", .optional⟩, ⟨"time", .natural⟩, ⟨"spendabletokens", .amount⟩,
    ⟨"spendablelockedtokens", .amount⟩, ⟨"totalcustodyfeedebt", .amount⟩,
    ⟨"spenttokens", .amount⟩, ⟨"paidcustodyfees", .amount⟩]

/-- How the report is written. -/
@[reducible] def schema : Json.Schema :=
  ⟨"ChainStats", fields⟩

/-- The report with the values of its fields. -/
def ofRow : Json.Row fields → CoinReport
  | (height, time, spendable, locked, feeDebt, spent, feeCollected, _) =>
    ⟨height, time, spendable, locked, feeDebt, spent, feeCollected⟩

/-- The report that a whole text holds. -/
def parse (text : String) : Except Json.Refusal CoinReport :=
  (schema.parse text.toList).map ofRow

end CoinReport

end ChainBoard
