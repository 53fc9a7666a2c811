/-!
# Numerals that people type

Settings give whole numbers in decimal digits, with at most one plus sign in front. Zeros in front
do not matter, and the number of digits has no limit.

## Main definitions

* `digits?`: reads one or more decimal digits
* `numeral?`: reads digits behind an optional plus sign

## Main results

* `digits?_toDigits`: the digits of a number are read as that number
-/

namespace ChainBoard.Decimal

/-- The number written by one or more decimal digits. -/
def digits? (s : List Char) : Option Nat :=
  if s ≠ [] ∧ s.all Char.isDigit then some (Nat.ofDigitChars 10 s 0) else none

/-- The number written by decimal digits behind an optional plus sign. -/
def numeral? : List Char → Option Nat
  | '+' :: s => digits? s
  | s => digits? s

/-- The digits of a number are read as that number. -/
theorem digits?_toDigits (n : Nat) : digits? (Nat.toDigits 10 n) = some n := by
  have hd : (Nat.toDigits 10 n).all Char.isDigit := by
    simp only [List.all_eq_true]
    exact fun c hc => Nat.isDigit_of_mem_toDigits (by decide) (by decide) hc
  have hne : Nat.toDigits 10 n ≠ [] := Nat.toDigits_ne_nil
  simp [digits?, hd, hne]

end ChainBoard.Decimal
