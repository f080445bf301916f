/-
# Decimal text of binary fractions

Measured times are shown as binary fractions with fifty-three digits.  Such a
number is kept as `± m · 2^e` (`Binary`), so all rounding is exact arithmetic on
naturals: `Binary.ofRatio` gives the nearest one to a quotient, `shortest` the
fewest decimal digits that read back as the same number, and `fixed` a given
number of decimal places.
-/

import Tarjuman.Text.Number

namespace Tarjuman

/-- The quotient rounded to the nearest natural; a half goes to the even
neighbour. -/
def roundDiv (n d : Nat) : Nat :=
  let q := n / d
  let r := n % d
  if 2 * r < d then q
  else if d < 2 * r then q + 1
  else if q % 2 = 0 then q else q + 1

/-- The number `± mantissa · 2 ^ exponent`, with a mantissa of at most fifty-three
binary digits. -/
structure Binary where
  negative : Bool
  mantissa : Nat
  exponent : Int
deriving DecidableEq, Repr

namespace Binary

/-- The number of binary digits of a mantissa. -/
def precision : Nat := 53

/-- The least exponent. -/
def leastExponent : Int := -1074

/-- `n · 2 ^ e` as a quotient. -/
def scaled (n : Nat) (e : Int) : Nat × Nat :=
  if 0 ≤ e then (n * Nat.pow 2 e.toNat, 1) else (n, Nat.pow 2 (-e).toNat)

/-- The nearest number to `± n / d`. -/
def ofRatio (negative : Bool) (n d : Nat) : Binary :=
  if n = 0 then ⟨false, 0, leastExponent⟩
  else
    let size (k : Nat) : Int := Nat.log2 k
    let guess := size n - size d - precision
    let mantissa (e : Int) : Nat :=
      let (a, b) := scaled n (-e)
      roundDiv a (b * d)
    let wide (e : Int) : Bool := Nat.pow 2 precision ≤ mantissa e
    let e := if wide guess then (if wide (guess + 1) then guess + 2 else guess + 1) else guess
    let e := max e leastExponent
    ⟨negative, mantissa e, e⟩

/-- The nearest number to an integer. -/
def ofInt (n : Int) : Binary := ofRatio (n < 0) n.natAbs 1

/-- The nearest number to the quotient by a positive natural. -/
def divNat (x : Binary) (d : Nat) : Binary :=
  let (a, b) := scaled x.mantissa x.exponent
  ofRatio x.negative a (b * d)

/-- The numbers that round to this one lie between these two quotients by one
denominator. -/
def interval (x : Binary) : Nat × Nat × Nat :=
  let narrow := x.mantissa = Nat.pow 2 (precision - 1) ∧ leastExponent < x.exponent
  let (a, d) := scaled 1 (x.exponent - 2)
  (((if narrow then 4 * x.mantissa - 1 else 4 * x.mantissa - 2)) * a, (4 * x.mantissa + 2) * a, d)

/-- The quotient `n / d` lies in the interval of the number; the ends belong to it
if the mantissa is even. -/
def reads (x : Binary) (n d : Nat) : Bool :=
  let (low, high, e) := x.interval
  if x.mantissa % 2 = 0 then low * d ≤ n * e && n * e ≤ high * d
  else low * d < n * e && n * e < high * d

/-- `n · 10 ^ e` as a quotient. -/
def tens (n : Nat) (e : Int) : Nat × Nat :=
  if 0 ≤ e then (n * Nat.pow 10 e.toNat, 1) else (n, Nat.pow 10 (-e).toNat)

/-- The decimal on the grid of `10 ^ e` that is nearest to the number, if it reads
back as the number. -/
def onGrid? (x : Binary) (e : Int) : Option Nat :=
  let (a, d) := scaled x.mantissa x.exponent
  let (p, q) := tens 1 (-e)
  let candidate := roundDiv (a * p) (d * q)
  let neighbours := [candidate, (a * p) / (d * q), (a * p) / (d * q) + 1]
  neighbours.find? fun c =>
    let (n, m) := tens c e
    x.reads n m

/-- The coarsest of some finer and finer grids with a decimal that reads back. -/
def firstGrid (x : Binary) : Nat → Int → Nat × Int
  | 0, e => ((x.onGrid? e).getD 0, e)
  | n + 1, e =>
    match x.onGrid? e with
    | some c => (c, e)
    | none => firstGrid x n (e - 1)

/-- The fewest decimal digits `c` and the exponent `e` such that `c · 10 ^ e` reads
back as the number without its sign. -/
def shortest (x : Binary) : Nat × Int :=
  if x.mantissa = 0 then (0, 0)
  else
    let (a, d) := scaled x.mantissa x.exponent
    let top : Int := if d ≤ a then (Text.ofNat (a / d)).length else 1
    firstGrid x 400 top

/-- The number with the fewest digits that read back, written out in full. -/
def render (x : Binary) : Text :=
  let (c, e) := x.shortest
  Text.when x.negative "-" ++
    if 0 ≤ e then Text.ofNat (c * Nat.pow 10 e.toNat)
    else
      let places := (-e).toNat
      Text.ofNat (c / Nat.pow 10 places) ++ "." ++
        Text.ofNatPadded places (c % Nat.pow 10 places)

/-- The number with a fixed number of decimal places. -/
def fixed (places : Nat) (x : Binary) : Text :=
  let (a, d) := scaled x.mantissa x.exponent
  let c := roundDiv (a * Nat.pow 10 places) d
  Text.when x.negative "-" ++
    Text.ofNat (c / Nat.pow 10 places) ++ "." ++
      Text.ofNatPadded places (c % Nat.pow 10 places)

end Binary
end Tarjuman
