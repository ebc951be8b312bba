/-!
# Dates of the proleptic Gregorian calendar

Days are counted from the first of January 1970. To number the days of a date, years are taken to
begin in March, so that a leap day is the last day of its year; the months from March on then begin
after `(153 * k + 2) / 5` days, and four centuries always have 146097 days.
-/

namespace TableMachine

/-- A date. Years before the year 1 count down through 0 to negative numbers. -/
structure Date where
  /-- The year. -/
  year : Int
  /-- The month, from 1 for January. -/
  month : Nat
  /-- The day of the month, from 1. -/
  day : Nat
deriving DecidableEq

namespace Date

/-- The number of days from the first of March of the year 0 to the first of January 1970. -/
def epoch : Int :=
  719468

/-- The number of days in four centuries. -/
def daysPerCycle : Int :=
  146097

/-- The date that lies some days after the first of January 1970. -/
def ofDays (days : Int) : Date :=
  let shifted := days + epoch
  let cycle := shifted / daysPerCycle
  let dayOfCycle := (shifted % daysPerCycle).toNat
  let yearOfCycle :=
    (dayOfCycle - dayOfCycle / 1460 + dayOfCycle / 36524 - dayOfCycle / 146096) / 365
  let dayOfYear := dayOfCycle - (365 * yearOfCycle + yearOfCycle / 4 - yearOfCycle / 100)
  let march := (5 * dayOfYear + 2) / 153
  let month := if march < 10 then march + 3 else march - 9
  { year := 400 * cycle + yearOfCycle + (if month ≤ 2 then 1 else 0)
    month
    day := dayOfYear - (153 * march + 2) / 5 + 1 }

/-- The number of days from the first of January 1970 to the date. -/
def toDays (d : Date) : Int :=
  let year := if d.month ≤ 2 then d.year - 1 else d.year
  let cycle := year / 400
  let yearOfCycle := (year % 400).toNat
  let march := if d.month ≤ 2 then d.month + 9 else d.month - 3
  let dayOfYear := (153 * march + 2) / 5 + d.day - 1
  let dayOfCycle := 365 * yearOfCycle + yearOfCycle / 4 - yearOfCycle / 100 + dayOfYear
  daysPerCycle * cycle + dayOfCycle - epoch

end Date

end TableMachine
