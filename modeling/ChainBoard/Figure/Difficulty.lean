import ChainBoard.Decimal.Grouping

/-!
# Difficulties at a readable scale

A difficulty below 1000 is shown as it is. A greater one is shown as a multiple of the greatest
power of 1000 that does not exceed it, cut (never rounded up) to two decimals. The powers end with
the eighth, so that a difficulty of 1000 of them and more shows a whole part of any length.

The power is found by climbing from the first to the next as long as there is one and the difficulty
is not below it. The symbols of the powers stand in a table.

## Main definitions

* `Scale`: a power of 1000 and the place of its symbol
* `Scale.climb`: the scale of a difficulty
* `Difficulty.readable`: the text of a difficulty
-/

namespace ChainBoard

/-- A power of 1000, and the place of its symbol in the table. -/
structure Scale where
  unit : Nat
  index : Nat
  deriving DecidableEq, Repr

namespace Scale

/-- The symbols of the powers, from the first to the eighth. -/
def symbols : List Char :=
  ['K', 'M', 'G', 'T', 'P', 'E', 'Z', 'Y']

/-- The first power, where a climb begins. -/
def first : Scale where
  unit := 1000
  index := 0

/-- The symbol behind a number at the scale. -/
def symbol (scale : Scale) : Char :=
  symbols[scale.index]!

/-- The next power, if it has a symbol and does not exceed `n`. -/
def next? (n : Nat) (scale : Scale) : Option Scale :=
  if scale.index + 1 < symbols.length ∧ scale.unit * 1000 ≤ n then
    some ⟨scale.unit * 1000, scale.index + 1⟩
  else none

/-- What the next power is, and when there is one. -/
theorem next?_eq_some_iff {n : Nat} {scale next : Scale} :
    scale.next? n = some next ↔
      (scale.index + 1 < symbols.length ∧ scale.unit * 1000 ≤ n) ∧
        next = ⟨scale.unit * 1000, scale.index + 1⟩ := by
  by_cases h : scale.index + 1 < symbols.length ∧ scale.unit * 1000 ≤ n
  · rw [next?, if_pos h, Option.some.injEq]
    exact ⟨fun he => ⟨h, he.symm⟩, fun he => he.2.symm⟩
  · rw [next?, if_neg h]
    simp [h]

/-- The next power is closer to the end of the table. -/
theorem left_lt_of_next? {n : Nat} {scale next : Scale} (h : scale.next? n = some next) :
    symbols.length - next.index < symbols.length - scale.index := by
  obtain ⟨⟨hindex, -⟩, rfl⟩ := next?_eq_some_iff.1 h
  show symbols.length - (scale.index + 1) < symbols.length - scale.index
  omega

/-- Climbs to the next power as long as there is one. -/
def climb (n : Nat) (scale : Scale) : Scale :=
  match _hnext : scale.next? n with
  | none => scale
  | some next => climb n next
termination_by symbols.length - scale.index
decreasing_by exact left_lt_of_next? _hnext

end Scale

namespace Difficulty

/-- The number of whole units and hundredths of a unit in `n`, the rest cut off. -/
def hundredths (scale : Scale) (n : Nat) : Nat :=
  n * 100 / scale.unit

/-- A difficulty at a scale: grouped whole units, two decimals, and the scale's symbol. -/
def atScale (scale : Scale) (n : Nat) : List Char :=
  Decimal.grouped (hundredths scale n / 100) ++ '.' ::
    (Nat.toDigits 10 (hundredths scale n % 100)).leftpad 2 '0' ++ [' ', scale.symbol]

/-- The text of a difficulty: plain below 1000, else at the scale to which it climbs. -/
def readable (n : Nat) : String :=
  String.ofList <|
    if n < 1000 then Nat.toDigits 10 n else atScale (Scale.first.climb n) n

end Difficulty

end ChainBoard
