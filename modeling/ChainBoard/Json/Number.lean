import ChainBoard.Decimal.Shortest

/-!
# Numbers

A JSON number is a whole number of at most 64 bits or a binary fraction.

## Main definitions

* `Number`: the numbers
* `Number.describe`: a number in a message
-/

namespace ChainBoard.Json

open Decimal (Binary64)

/-- The value of a number literal. -/
inductive Number where
  /-- A whole number of at most 64 bits. -/
  | natural (n : Nat)
  /-- The number `-n` for a positive `n` of at most `2 ^ 63`. -/
  | negative (n : Nat)
  /-- A binary fraction and its sign. -/
  | fraction (minus : Bool) (x : Binary64)
  deriving DecidableEq, Repr

/-- A number in a message. -/
def Number.describe : Number → List Char
  | natural n => "integer ".toList ++ '`' :: Nat.toDigits 10 n ++ ['`']
  | negative n => "integer ".toList ++ '`' :: '-' :: Nat.toDigits 10 n ++ ['`']
  | fraction minus x => "floating point ".toList ++ '`' :: Decimal.Shortest.render minus x ++ ['`']

end ChainBoard.Json
