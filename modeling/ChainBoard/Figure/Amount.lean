/-!
# Amounts as texts

Amounts have no greatest value and are therefore sent as texts: decimal digits behind an optional
plus sign, with underscores anywhere behind the first digit, which mean nothing.

## Main definitions

* `Amount.Fault`: why a value is no amount
* `Amount.ofText`: reads the text of an amount
-/

namespace ChainBoard.Amount

/-- Why a value is not an amount. -/
inductive Fault where
  /-- The text holds no digit at all. -/
  | empty
  /-- A character of the text stands where only a digit may stand. -/
  | notDigit
  /-- The value is neither a text nor a whole number of at most 64 bits. -/
  | notAmount
  deriving DecidableEq, Repr

/-- The wording of a fault. -/
def Fault.message : Fault → String
  | empty => "cannot parse integer from empty string"
  | notDigit => "invalid digit found in string"
  | notAmount => "data did not match any variant of untagged enum Raw"

/-- The text without one plus sign at its start. -/
def dropPlus : List Char → List Char
  | '+' :: s => s
  | s => s

/-- A digit, or the underscore that may stand between digits. -/
def isDigitOrGap (c : Char) : Bool :=
  c.isDigit || c = '_'

/-- The amount that a text names. -/
def ofText (s : List Char) : Except Fault Nat :=
  match dropPlus s with
  | [] => .error .empty
  | c :: cs =>
    if c.isDigit ∧ cs.all isDigitOrGap then
      .ok (Nat.ofDigitChars 10 (c :: cs.filter (· ≠ '_')) 0)
    else
      .error .notDigit

end ChainBoard.Amount
