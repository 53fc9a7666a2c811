import ChainBoard.Text.Alignment

/-!
# The slots of a board

A board has nine slots, always in the same order. Each has a name, which stands in front of its
content and is fitted to a column like any other text.

## Main definitions

* `Slot`: the slots
* `Slot.all`: the order in which a board shows them
* `Slot.name`, `Slot.ofName?`: names
* `Slot.fit`: a name in a column
-/

namespace ChainBoard

/-- The nine slots of a board. -/
inductive Slot where
  | height
  | blockId
  | difficulty
  | time
  | spendable
  | locked
  | feeDebt
  | spent
  | feeCollected
  deriving DecidableEq, Repr

namespace Slot

/-- The slots in the order in which a board shows them. -/
def all : List Slot :=
  [height, blockId, difficulty, time, spendable, locked, feeDebt, spent, feeCollected]

/-- The name of a slot. -/
def name : Slot → String
  | height => "height"
  | blockId => "blockID"
  | difficulty => "difficulty"
  | time => "time"
  | spendable => "tokensSpendable"
  | locked => "tokensLocked"
  | feeDebt => "custodyFeeDebt"
  | spent => "tokensSpent"
  | feeCollected => "custodyFeeCollected"

/-- The slot of a name. -/
def ofName? (name : String) : Option Slot :=
  all.find? fun slot => slot.name = name

theorem mem_all (slot : Slot) : slot ∈ all := by
  cases slot <;> decide

theorem ofName?_name (slot : Slot) : ofName? slot.name = some slot := by
  cases slot <;> decide

/-- The name of a slot in a column: cut, then filled up with spaces. -/
def fit (slot : Slot) (align : Text.Alignment) (width : Nat) (most? : Option Nat) : String :=
  String.ofList (align.fit width most? slot.name.toList)

end Slot

end ChainBoard
