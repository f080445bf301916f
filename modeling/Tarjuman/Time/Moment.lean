/-
# Moments

A moment in a time zone, shown by its clock reading or by date, clock reading and
zone.  Fractions of a second are cut to microseconds.
-/

import Tarjuman.Text.Number

namespace Tarjuman

/-- A moment: seconds and nanoseconds since the first moment of 1970, and the
number of seconds by which its zone is ahead. -/
structure Moment where
  seconds : Int
  nanoseconds : Int
  offset : Int
deriving DecidableEq, Repr, Inhabited

namespace Moment

/-- The whole seconds as counted by a clock in the zone. -/
def reading (t : Moment) : Int := t.seconds + t.nanoseconds.fdiv 1000000000 + t.offset

/-- The whole microseconds of the second. -/
def micros (t : Moment) : Nat := (t.nanoseconds.fmod 1000000000).toNat / 1000

/-- The day since the first of January 1970. -/
def day (t : Moment) : Int := t.reading.fdiv 86400

/-- The second of the day. -/
def secondOfDay (t : Moment) : Nat := (t.reading.fmod 86400).toNat

/-- Year, month and day of the month of a day.  Years are counted from March on,
so that the leap day is the last day of its year. -/
def date (day : Int) : Int × Nat × Nat :=
  let z := day + 719468
  let era := z.fdiv 146097
  let n := (z.fmod 146097).toNat
  let year := (n - n / 1460 + n / 36524 - n / 146096) / 365
  let rest := n - (365 * year + year / 4 - year / 100)
  let m := (5 * rest + 2) / 153
  let month := if m < 10 then m + 3 else m - 9
  (era * 400 + year + (if month ≤ 2 then 1 else 0), month, rest - (153 * m + 2) / 5 + 1)

/-- The clock reading as `15:04:05.000000`. -/
def clock (t : Moment) : Text :=
  let s := t.secondOfDay
  Text.ofNatPadded 2 (s / 3600) ++ ":" ++ Text.ofNatPadded 2 (s / 60 % 60) ++ ":" ++
    Text.ofNatPadded 2 (s % 60) ++ "." ++ Text.ofNatPadded 6 t.micros

/-- The zone as `Z` or `+05:30`. -/
def zone (t : Moment) : Text :=
  if t.offset = 0 then "Z"
  else
    let minutes := t.offset.tdiv 60
    (if minutes < 0 then Text.ofString "-" else "+") ++
      Text.ofNatPadded 2 (minutes.natAbs / 60) ++ ":" ++ Text.ofNatPadded 2 (minutes.natAbs % 60)

/-- The moment as `2006-01-02T15:04:05.000000Z`. -/
def render (t : Moment) : Text :=
  let (y, m, d) := date t.day
  Text.when (y < 0) "-" ++ Text.ofNatPadded 4 y.natAbs ++ "-" ++
    Text.ofNatPadded 2 m ++ "-" ++ Text.ofNatPadded 2 d ++ "T" ++ t.clock ++ t.zone

end Moment
end Tarjuman
