import ChainBoard.Decimal.Grouping
import ChainBoard.Text.Trim

/-!
# Amounts of coins

Amounts are counted in base units. A coin unit says how many decimal places a coin has over its base
unit, and what coins are called. The text of an amount is exact: the whole coins grouped by commas,
the decimal places that are left when the zeros at their end are dropped, and the name.

## Main definitions

* `CoinUnit`: precision and name
* `CoinUnit.readable`: the text of an amount
-/

namespace ChainBoard

/-- How base units make up coins, and what coins are called. -/
structure CoinUnit where
  /-- A coin is `10 ^ precision` base units. -/
  precision : Nat := 9
  /-- The name behind an amount; none is written when it is empty. -/
  name : String := "AUR"
  deriving DecidableEq, Repr

namespace CoinUnit

/-- The number of base units in one coin. -/
def coin (unit : CoinUnit) : Nat :=
  Nat.pow 10 unit.precision

/-- The decimal places of an amount, without the zeros at their end; empty for whole coins. -/
def places (unit : CoinUnit) (amount : Nat) : List Char :=
  Text.trimEnd '0' ((Nat.toDigits 10 (amount % unit.coin)).leftpad unit.precision '0')

/-- The places with the point in front; nothing when there is no place. -/
def fraction (unit : CoinUnit) (amount : Nat) : List Char :=
  if amount % unit.coin = 0 then [] else '.' :: unit.places amount

/-- The name with a space in front; nothing when the name is empty. -/
def suffix (unit : CoinUnit) : String :=
  if unit.name = "" then "" else " " ++ unit.name

/-- The text of an amount of base units: whole coins, places and name. -/
def readable (unit : CoinUnit) (amount : Nat) : String :=
  String.ofList (Decimal.grouped (amount / unit.coin) ++ unit.fraction amount) ++ unit.suffix

end CoinUnit

end ChainBoard
