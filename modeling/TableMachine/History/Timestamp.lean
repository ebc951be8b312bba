import TableMachine.History.Date
import TableMachine.Text.Digits

/-!
# Points in time

A timestamp counts seconds and nanoseconds in universal time. It is written as date and time of day,
with a fraction of three, six or nine digits, the fewest that lose nothing, and without a fraction
if the second is full. A year outside the range from 0 to 9999 is written with its sign.
-/

namespace TableMachine

/-- The number of nanoseconds in a second. -/
def nanosPerSecond : Nat :=
  1000000000

/-- A point in time: seconds since the beginning of 1970, and nanoseconds after that second. -/
structure Timestamp where
  /-- Full seconds since the beginning of 1970. -/
  seconds : Int
  /-- Nanoseconds after the full second. -/
  nanos : Fin nanosPerSecond
deriving DecidableEq

/-- A length of time that is not negative. -/
structure Span where
  /-- Full seconds. -/
  seconds : Nat
  /-- Nanoseconds beyond the full seconds. -/
  nanos : Fin nanosPerSecond
deriving DecidableEq

namespace Timestamp

/-- The beginning of 1970. -/
def epoch : Timestamp where
  seconds := 0
  nanos := ⟨0, by decide⟩

/-- Nanoseconds since the beginning of 1970. -/
def toNanos (t : Timestamp) : Int :=
  t.seconds * nanosPerSecond + t.nanos.val

/-- The length of time from one point to another that is not before it. -/
def until? (start stop : Timestamp) : Option Span :=
  let distance := stop.toNanos - start.toNanos
  if distance < 0 then none
  else
    some {
      seconds := distance.toNat / nanosPerSecond
      nanos := ⟨distance.toNat % nanosPerSecond, Nat.mod_lt _ (by decide)⟩ }

/-! ## Writing -/

/-- A year of the range from 0 to 9999 has four digits; any other has a sign and at least four. -/
def yearText (year : Int) : String :=
  if 0 ≤ year ∧ year ≤ 9999 then Text.padded 4 year.toNat
  else (if year < 0 then "-" else "+") ++ Text.padded 4 year.natAbs

/-- The fraction of a second with a dot in front; nothing for a full second. -/
def fractionText (nanos : Nat) : String :=
  if nanos = 0 then ""
  else if nanos % 1000000 = 0 then "." ++ Text.padded 3 (nanos / 1000000)
  else if nanos % 1000 = 0 then "." ++ Text.padded 6 (nanos / 1000)
  else "." ++ Text.padded 9 nanos

/-- The number of seconds in a day. -/
def secondsPerDay : Int :=
  86400

/-- Date and time of day in universal time. -/
def text (t : Timestamp) : String :=
  let date := Date.ofDays (t.seconds / secondsPerDay)
  let time := (t.seconds % secondsPerDay).toNat
  yearText date.year ++ "-" ++ Text.padded 2 date.month ++ "-" ++ Text.padded 2 date.day
    ++ "T" ++ Text.padded 2 (time / 3600) ++ ":" ++ Text.padded 2 (time / 60 % 60)
    ++ ":" ++ Text.padded 2 (time % 60) ++ fractionText t.nanos.val ++ "Z"

/-! ## Reading -/

/-- Splits a text at the first occurrence of a character. -/
def cutAt (c : Char) (cs : List Char) : List Char × List Char :=
  (cs.takeWhile (· ≠ c), (cs.dropWhile (· ≠ c)).drop 1)

/-- Reads a year with or without a sign. -/
def yearOf? : List Char → Option Int
  | '-' :: digits => (Text.natOf? digits).map fun n => -(n : Int)
  | '+' :: digits => (Text.natOf? digits).map fun n => (n : Int)
  | digits => (Text.natOf? digits).map fun n => (n : Int)

/-- Reads a fraction of up to nine digits. -/
def nanosOf? : List Char → Option Nat
  | [] => some 0
  | digits =>
    if digits.length ≤ 9 then Text.natOf? (digits ++ List.replicate (9 - digits.length) '0')
    else none

/-- Reads a date; the sign of the year is set apart first, since a dash divides the parts. -/
def dateOf? (cs : List Char) : Option Date := do
  let (sign, rest) := cs.span fun c => c = '-' || c = '+'
  let (year, rest) := cutAt '-' rest
  let (month, day) := cutAt '-' rest
  some {
    year := ← yearOf? (sign ++ year)
    month := ← Text.natOf? month
    day := ← Text.natOf? day }

/-- Reads what `text` writes. -/
def ofText? (s : String) : Option Timestamp := do
  let (date, rest) := cutAt 'T' s.toList
  let (time, zone) := cutAt 'Z' rest
  if zone ≠ [] then none
  let (clock, fraction) := cutAt '.' time
  let (hour, rest) := cutAt ':' clock
  let (minute, second) := cutAt ':' rest
  let days := (← dateOf? date).toDays
  let seconds :=
    3600 * (← Text.natOf? hour) + 60 * (← Text.natOf? minute) + (← Text.natOf? second)
  let nanos ← nanosOf? fraction
  if h : nanos < nanosPerSecond then
    some { seconds := secondsPerDay * days + seconds, nanos := ⟨nanos, h⟩ }
  else
    none

end Timestamp

end TableMachine
