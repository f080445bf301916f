/-
# Durations

A duration counts nanoseconds in a signed word of sixty-four bits.  It is shown
in milliseconds or in hours, minutes and seconds.
-/

import Tarjuman.Text.Decimal

namespace Tarjuman

/-- A number of nanoseconds. -/
abbrev Duration := Int

namespace Duration

/-- A number kept within a signed word of sixty-four bits. -/
def wrap (n : Int) : Duration := Int.bmod n 0x10000000000000000

/-- Nanoseconds in a millisecond. -/
def millisecond : Nat := 1000000

/-- The duration in milliseconds. -/
def millis (d : Duration) : Binary := (Binary.ofInt d).divNat millisecond

/-- The number of whole milliseconds nearest to a positive duration, a half
upwards. -/
def roundedMillis (d : Duration) : Nat := (d.toNat + millisecond / 2) / millisecond

/-- A number of thousandths as seconds, without zeros at the end. -/
def seconds (n : Nat) : Text :=
  let places := ((Text.ofNatPadded 3 (n % 1000)).reverse.dropWhile (· == 0x30)).reverse
  Text.ofNat (n / 1000) ++ Text.when (!places.isEmpty) ("." ++ places) ++ "s"

/-- A positive duration to the millisecond, as `1h2m3.004s`; below one second it is
shown in milliseconds. -/
def render (d : Duration) : Text :=
  let n := d.roundedMillis
  if n = 0 then "0s"
  else if n < 1000 then Text.ofNat n ++ "ms"
  else
    let h := n / 3600000
    let m := n / 60000 % 60
    Text.when (0 < h) (Text.ofNat h ++ "h") ++ Text.when (0 < h ∨ 0 < m) (Text.ofNat m ++ "m") ++
      seconds (n % 60000)

end Duration
end Tarjuman
