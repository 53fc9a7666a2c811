/-!
# Periods as texts

A period is shown as days, hours, minutes and seconds, each with its letter. Parts that are zero are
left out, so that only the empty period has no text of its own and is shown as no seconds.

## Main definitions

* `Period.parts`: how much of each unit a period holds
* `Period.readable`: the text of a period
-/

namespace ChainBoard.Time.Period

/-- How many days, hours, minutes and seconds a period holds, with their letters. -/
def parts (seconds : Nat) : List (Nat × Char) :=
  [(seconds / 86400, 'd'), (seconds / 3600 % 24, 'h'), (seconds / 60 % 60, 'm'),
    (seconds % 60, 's')]

/-- A part is its number and its letter, or nothing when the number is zero. -/
def part : Nat × Char → List Char
  | (0, _) => []
  | (n, letter) => Nat.toDigits 10 n ++ [letter]

/-- The parts that are not zero, the longest unit first. -/
def readable (seconds : Nat) : String :=
  if seconds = 0 then "0s" else String.ofList ((parts seconds).flatMap part)

end ChainBoard.Time.Period
