/-!
# Dates

A date is an instant of UTC : whole seconds since the start of 1970, and
nanoseconds. Nanoseconds from `10 ^ 9` on belong to a leap second, the second
`:60` that follows the given one.

`Date.civil` finds the day in the proleptic Gregorian calendar. It counts years
from 1 March, so that the leap day is the last day of its year and the months
before it have the regular lengths 31, 30, 31, 30, 31, and it splits off cycles
of 400 years, each of 146097 days.

Dates are written as in RFC 3339. Years outside 0 to 9999 have a sign.
-/

namespace CallGuard

/-- An instant of UTC. -/
structure Date where
  /-- Whole seconds since the start of 1970. -/
  seconds : Int
  /-- Nanoseconds after them, or after the next second if there are `10 ^ 9` or more. -/
  nanos : Nat
  deriving DecidableEq

/-- A day of the calendar. -/
structure CivilDay where
  /-- The year; 0 is the year before 1. -/
  year : Int
  /-- The month, from 1. -/
  month : Nat
  /-- The day of the month, from 1. -/
  day : Nat
  deriving DecidableEq

/-- The digits of a number with zeros in front up to a width. -/
def padded (width n : Nat) : String := .ofList ((Nat.toDigits 10 n).leftpad width '0')

/-- The day a number of days after 1 January 1970. -/
def CivilDay.ofDays (days : Int) : CivilDay :=
  let fromMarch := days + 719468
  let cycle := fromMarch / 146097
  let dayOfCycle := (fromMarch % 146097).toNat
  let yearOfCycle :=
    (dayOfCycle - dayOfCycle / 1460 + dayOfCycle / 36524 - dayOfCycle / 146096) / 365
  let dayOfYear := dayOfCycle - (365 * yearOfCycle + yearOfCycle / 4 - yearOfCycle / 100)
  let monthFromMarch := (5 * dayOfYear + 2) / 153
  let day := dayOfYear - (153 * monthFromMarch + 2) / 5 + 1
  let year := cycle * 400 + yearOfCycle
  if monthFromMarch < 10 then ⟨year, monthFromMarch + 3, day⟩
  else ⟨year + 1, monthFromMarch - 9, day⟩

namespace Date

/-- The day of the calendar. -/
def civil (d : Date) : CivilDay := .ofDays (d.seconds / 86400)

/-- A year of four digits, or with a sign and at least four digits. -/
def writeYear (year : Int) : String :=
  if 0 ≤ year ∧ year ≤ 9999 then padded 4 year.toNat
  else (if year < 0 then "-" else "+") ++ padded 4 year.natAbs

/-- The date up to the seconds, with 60 of them in a leap second. -/
def writeSeconds (d : Date) : String :=
  let day := d.civil
  let second := (d.seconds % 86400).toNat
  let leap := if 1000000000 ≤ d.nanos then 1 else 0
  writeYear day.year ++ "-" ++ padded 2 day.month ++ "-" ++ padded 2 day.day ++ "T" ++
    padded 2 (second / 3600) ++ ":" ++ padded 2 (second / 60 % 60) ++ ":" ++
    padded 2 (second % 60 + leap)

/-- The nanoseconds within the second. -/
def fraction (d : Date) : Nat := if 1000000000 ≤ d.nanos then d.nanos - 1000000000 else d.nanos

/-- A date with milliseconds, the rest cut off. -/
def text (d : Date) : String := d.writeSeconds ++ "." ++ padded 3 (d.fraction / 1000000) ++ "Z"

/-- A date under inspection : with no fraction if there is none, and otherwise with the least of
3, 6 and 9 digits that is exact. -/
def inspect (d : Date) : String :=
  let fraction :=
    if d.fraction = 0 then ""
    else if d.fraction % 1000000 = 0 then "." ++ padded 3 (d.fraction / 1000000)
    else if d.fraction % 1000 = 0 then "." ++ padded 6 (d.fraction / 1000)
    else "." ++ padded 9 d.fraction
  d.writeSeconds ++ fraction ++ "Z"

example : [0, -1, 951782400, 253402300800, -62198755200].map (fun s => (⟨s, 0⟩ : Date).civil) =
    [⟨1970, 1, 1⟩, ⟨1969, 12, 31⟩, ⟨2000, 2, 29⟩, ⟨10000, 1, 1⟩, ⟨-1, 1, 1⟩] := by decide

example : (⟨915148799, 1999999999⟩ : Date).text = "1998-12-31T23:59:60.999Z" := by decide

end Date

end CallGuard
