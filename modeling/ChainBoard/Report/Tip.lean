import ChainBoard.Json.Document

/-!
# Reports on the tip of the chain

The report on the tip gives the height of the chain, the identifier of its last block, and the
difficulty. An explorer sends it with many other members, which are of no interest here.

## Main definitions

* `TipReport`: the report
* `TipReport.schema`: how it is written
* `TipReport.parse`: reads a text that holds a report
-/

namespace ChainBoard

/-- What an explorer says about the tip of the chain. -/
structure TipReport where
  height : Nat
  blockId : String
  difficulty : Nat
  deriving DecidableEq, Repr

namespace TipReport

/-- The fields of the report, as they are written. -/
@[reducible] def fields : List Json.Field :=
  [⟨"height", .natural⟩, ⟨"blockid", .text⟩, ⟨"difficulty", .amount⟩]

/-- How the report is written. -/
@[reducible] def schema : Json.Schema :=
  ⟨"ExplorerStatus", fields⟩

/-- The report with the values of its fields. -/
def ofRow : Json.Row fields → TipReport
  | (height, blockId, difficulty, _) => ⟨height, String.ofList blockId, difficulty⟩

/-- The report that a whole text holds. -/
def parse (text : String) : Except Json.Refusal TipReport :=
  (schema.parse text.toList).map ofRow

end TipReport

end ChainBoard
