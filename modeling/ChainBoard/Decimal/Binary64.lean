/-!
# Binary fractions of 53 bits

A decimal number with a fraction or exponent is held as the nearest number `m * 2 ^ e`, with `m`
below `2 ^ 53` and `e` from -1074 to 971. Of two that are equally near, the one with even `m` is
taken. Numbers are non-negative; a sign is kept beside them.

## Main definitions

* `Binary64`: the numbers
* `Binary64.ofRatio?`: the nearest number to a fraction, unless the fraction is too great
* `Binary64.ratio`: a number as a fraction
* `Binary64.mul?`, `Binary64.div?`: exact product and quotient, rounded once
-/

namespace ChainBoard.Decimal

/-- The number `mantissa * 2 ^ exponent`. -/
structure Binary64 where
  mantissa : Nat
  exponent : Int
  deriving DecidableEq, Repr

/-- The whole number nearest to `num / den`; halfway, the even one. -/
def nearest (num den : Nat) : Nat :=
  let q := num / den
  let r := num % den
  if 2 * r < den ∨ (2 * r = den ∧ q % 2 = 0) then q else q + 1

/-- The fraction `num / den` divided by `2 ^ e`. -/
def perPower (num den : Nat) (e : Int) : Nat × Nat :=
  if 0 ≤ e then (num, den * Nat.pow 2 e.toNat) else (num * Nat.pow 2 (-e).toNat, den)

namespace Binary64

/-- The least exponent. -/
def minExponent : Int := -1074

/-- The greatest exponent. -/
def maxExponent : Int := 971

/-- One more than the greatest mantissa. -/
def mantissaBound : Nat := Nat.pow 2 53

/-- The number zero. -/
def zero : Binary64 := ⟨0, minExponent⟩

/-- The least exponent at which the mantissa of `num / den` fits. -/
def exponentOf (num den : Nat) : Int :=
  let k : Int := Nat.log2 num - Nat.log2 den
  let (a, b) := perPower num den (k - 53)
  max (if a < b * mantissaBound then k - 53 else k - 52) minExponent

/-- The nearest number to `num / den`; none when the fraction is beyond all of them. -/
def ofRatio? (num den : Nat) : Option Binary64 :=
  if num = 0 then some zero
  else
    let e := exponentOf num den
    let (a, b) := perPower num den e
    let m := nearest a b
    let rounded : Binary64 := if m = mantissaBound then ⟨m / 2, e + 1⟩ else ⟨m, e⟩
    if rounded.exponent ≤ maxExponent then some rounded else none

/-- A number as a fraction. -/
def ratio (x : Binary64) : Nat × Nat :=
  perPower x.mantissa 1 (-x.exponent)

/-- The product, rounded once. -/
def mul? (x y : Binary64) : Option Binary64 :=
  ofRatio? (x.ratio.1 * y.ratio.1) (x.ratio.2 * y.ratio.2)

/-- The quotient, rounded once. -/
def div? (x y : Binary64) : Option Binary64 :=
  ofRatio? (x.ratio.1 * y.ratio.2) (x.ratio.2 * y.ratio.1)

/-- The nearest number to a whole number. -/
def ofNat? (n : Nat) : Option Binary64 :=
  ofRatio? n 1

/-- The nearest number to a power of ten. -/
def tenTo? (n : Nat) : Option Binary64 :=
  ofNat? (Nat.pow 10 n)

end Binary64

end ChainBoard.Decimal
