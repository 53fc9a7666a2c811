import ChainBoard.Decimal.Binary64
import ChainBoard.Text.Trim

/-!
# The shortest decimal text of a binary fraction

A binary fraction is shown by the fewest decimal digits that are read back as the same number. All
decimals between the two points halfway to its neighbours are read back so, the points themselves
only when the mantissa is even. Of several decimals with the fewest digits the nearest is taken.

Numbers from a hundred-thousandth to below ten to the sixteenth are written out with a point and at
least one decimal; others by their digits and a power of ten.

## Main definitions

* `Shortest.Span`: the decimals that are read back as a number
* `Shortest.digits`: the fewest digits, and the power of ten of the first
* `Shortest.render`: the text of a number
-/

namespace ChainBoard.Decimal.Shortest

/-- The numbers from `low` to `high` around `mid`, counted in units of `num / den`; the ends are in
when `closed` holds. -/
structure Span where
  low : Nat
  mid : Nat
  high : Nat
  closed : Bool
  num : Nat
  den : Nat
  deriving DecidableEq, Repr

/-- What is read back as `x`, in quarters of its last bit: half a bit to either side, but only a
quarter below a power of two, where the neighbour is nearer. -/
def Span.of (x : Binary64) : Span :=
  let unit := perPower 1 1 (2 - x.exponent)
  let halved := x.mantissa = Nat.pow 2 52 ∧ Binary64.minExponent < x.exponent
  { low := 4 * x.mantissa - (if halved then 1 else 2)
    mid := 4 * x.mantissa
    high := 4 * x.mantissa + 2
    closed := x.mantissa % 2 = 0
    num := unit.1
    den := unit.2 }

/-- The fraction `n * 10 ^ e` as numerator and denominator. -/
def tenfold (n : Nat) (e : Int) : Nat × Nat :=
  if 0 ≤ e then (n * Nat.pow 10 e.toNat, 1) else (n, Nat.pow 10 (-e).toNat)

/-- Whether `n * 10 ^ e` lies in the span. -/
def Span.has (span : Span) (n : Nat) (e : Int) : Bool :=
  let (a, b) := tenfold n e
  let point := a * span.den
  let low := span.low * span.num * b
  let high := span.high * span.num * b
  if span.closed then low ≤ point && point ≤ high else low < point && point < high

/-- The power of ten of the first digit of `num / den`, which is not zero. -/
def firstPower (num den : Nat) : Int :=
  let guess : Int := (Nat.toDigits 10 num).length - (Nat.toDigits 10 den).length
  let (a, b) := tenfold 1 guess
  if a * den ≤ num * b then guess else guess - 1

/-- Of the two multiples of `10 ^ e` around the span's middle, the nearer one in the span; halfway,
the even one. -/
def Span.multiple? (span : Span) (e : Int) : Option Nat :=
  let (a, b) := tenfold 1 e
  let num := span.mid * span.num * b
  let den := span.den * a
  let below := num / den
  match span.has below e, span.has (below + 1) e with
  | true, true => some (nearest num den)
  | true, false => some below
  | false, true => some (below + 1)
  | false, false => none

/-- The fewest digits from `count` on that have a decimal in the span. -/
def search (span : Span) (first : Int) (count : Nat) : Nat → Nat × Int
  | 0 => (span.mid, 0)
  | fuel + 1 =>
    let e := first - (count - 1 : Nat)
    match span.multiple? e with
    | some n => (n, e)
    | none => search span first (count + 1) fuel

/-- The fewest digits that are read back as `x`, and the power of ten of the first digit. Seventeen
digits always suffice. -/
def digits (x : Binary64) : List Char × Int :=
  let span := Span.of x
  let (n, e) := search span (firstPower (span.mid * span.num) span.den) 1 17
  let all := Nat.toDigits 10 n
  (Text.trimEnd '0' all, e + (all.length - 1 : Nat))

/-- The greatest power of ten of a first digit that is written out. -/
def highestPlain : Int := 15

/-- The least power of ten of a first digit that is written out. -/
def lowestPlain : Int := -5

/-- Digits written out with a point. -/
def plain (ds : List Char) (first : Int) : List Char :=
  if first < 0 then
    ['0', '.'] ++ List.replicate ((-first).toNat - 1) '0' ++ ds
  else
    let whole := first.toNat + 1
    let places := ds.drop whole
    ds.take whole ++ List.replicate (whole - ds.length) '0' ++ '.' ::
      (if places = [] then ['0'] else places)

/-- Digits with a power of ten: a point behind the first digit if more follow, and the power with
its sign. -/
def powered (ds : List Char) (first : Int) : List Char :=
  let places := ds.drop 1
  ds.take 1 ++ (if places = [] then [] else '.' :: places) ++
    'e' :: (if first < 0 then '-' else '+') :: Nat.toDigits 10 first.natAbs

/-- The text of a number with its sign. -/
def render (negative : Bool) (x : Binary64) : List Char :=
  let sign := if negative then ['-'] else []
  if x.mantissa = 0 then sign ++ ['0', '.', '0']
  else
    let (ds, first) := digits x
    sign ++ if lowestPlain ≤ first ∧ first ≤ highestPlain then plain ds first else powered ds first

end ChainBoard.Decimal.Shortest
