import ChainBoard.Time.Civil

/-!
# Instants as texts

An instant is a number of seconds since the first of January 1970, without leap seconds. Its text
gives date and clock time. Years have at least four digits, and those beyond 9999 carry a plus sign.
The calendar ends with the last second of the year 262142; a later instant has no date and is shown
by its number.

## Main definitions

* `Clock.ofSecond`: the clock time of a second of the day
* `Instant.readable`: the text of an instant
* `Instant.compact`: the text of an instant without blanks
-/

namespace ChainBoard.Time

/-- A time of day. -/
structure Clock where
  hour : Nat
  minute : Nat
  second : Nat
  deriving DecidableEq, Repr

namespace Clock

/-- The clock time of a second of the day. -/
def ofSecond (n : Nat) : Clock :=
  ⟨n / 3600, n / 60 % 60, n % 60⟩

/-- The second of the day that a clock time names. -/
def toSecond (clock : Clock) : Nat :=
  3600 * clock.hour + 60 * clock.minute + clock.second

end Clock

namespace Instant

/-- The day of the first of January 1970, counted from that of year 1. -/
def epochDay : Nat := 719162

/-- The last instant that has a date: the last second of the year 262142. -/
def last : Nat := 8210266876799

/-- The date of an instant. -/
def date (seconds : Nat) : Date :=
  Date.ofDay (epochDay + seconds / 86400)

/-- The clock time of an instant. -/
def clock (seconds : Nat) : Clock :=
  Clock.ofSecond (seconds % 86400)

/-- A number with at least two digits. -/
def twoDigits (n : Nat) : List Char :=
  (Nat.toDigits 10 n).leftpad 2 '0'

/-- A year has at least four digits; beyond 9999 a plus sign stands in front. -/
def yearDigits (year : Nat) : List Char :=
  if year ≤ 9999 then (Nat.toDigits 10 year).leftpad 4 '0' else '+' :: Nat.toDigits 10 year

/-- A date, from the year to the day. -/
def dateDigits (date : Date) : List Char :=
  yearDigits date.year ++ '-' :: twoDigits date.month ++ '-' :: twoDigits date.day

/-- A clock time, from the hour to the second. -/
def clockDigits (clock : Clock) : List Char :=
  twoDigits clock.hour ++ ':' :: twoDigits clock.minute ++ ':' :: twoDigits clock.second

/-- Date and clock time, in the order from the year to the second. -/
def stamp (date : Date) (clock : Clock) : List Char :=
  dateDigits date ++ ' ' :: clockDigits clock

/-- The text of an instant: its date and clock time, or its number when it has no date. -/
def readable (seconds : Nat) : String :=
  if seconds ≤ last then
    String.ofList (stamp (date seconds) (clock seconds)) ++ " UTC"
  else
    "invalid time (" ++ toString seconds ++ ")"

/-- The text of an instant up to the year 9999 without blanks, as records bear it. -/
def compact (seconds : Nat) : String :=
  String.ofList (dateDigits (date seconds) ++ 'T' :: clockDigits (clock seconds) ++ ['Z'])

end Instant

end ChainBoard.Time
