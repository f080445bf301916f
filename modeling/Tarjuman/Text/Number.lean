/-
# Numbers as text

Decimal and hexadecimal digits of natural numbers and integers, and the reading
of hexadecimal digits.
-/

import Tarjuman.Text.Basic

namespace Tarjuman
namespace Text

/-- The byte of a digit below sixteen, letters in lower case. -/
def digit (n : Nat) : UInt8 :=
  if n < 10 then (0x30 + n).toUInt8 else (0x57 + n).toUInt8

/-- The byte of a digit below sixteen, letters in upper case. -/
def digitUpper (n : Nat) : UInt8 :=
  if n < 10 then (0x30 + n).toUInt8 else (0x37 + n).toUInt8

/-- Digits in base `base`, most significant first, in front of `acc`. -/
def digitsOnto (base : Nat) (sym : Nat → UInt8) (n : Nat) (acc : Text) : Text :=
  if _h : 2 ≤ base ∧ base ≤ n then
    digitsOnto base sym (n / base) (sym (n % base) :: acc)
  else sym n :: acc
termination_by n
decreasing_by exact Nat.div_lt_self (by omega) (by omega)

/-- The decimal numeral. -/
def ofNat (n : Nat) : Text := digitsOnto 10 digit n []

/-- The decimal numeral with a minus sign below zero. -/
def ofInt : Int → Text
  | .ofNat n => ofNat n
  | .negSucc n => byte '-' :: ofNat (n + 1)

/-- The decimal numeral with zeros on the left up to `w` digits. -/
def ofNatPadded (w n : Nat) : Text :=
  let s := ofNat n
  List.replicate (w - s.length) 0x30 ++ s

/-- The hexadecimal numeral in lower case, at least `w` digits. -/
def hexPadded (w n : Nat) : Text :=
  let s := digitsOnto 16 digit n []
  List.replicate (w - s.length) 0x30 ++ s

/-- The hexadecimal numeral in upper case, at least `w` digits. -/
def hexUpperPadded (w n : Nat) : Text :=
  let s := digitsOnto 16 digitUpper n []
  List.replicate (w - s.length) 0x30 ++ s

/-- Two lower-case hexadecimal digits for each byte. -/
def hexOfBytes (s : Text) : Text :=
  s.flatMap fun b => [digit (b.toNat / 16), digit (b.toNat % 16)]

/-- The byte is one of `0` to `9`. -/
def isDigitByte (b : UInt8) : Bool := 0x30 ≤ b && b ≤ 0x39

/-- The value of a hexadecimal digit in either case. -/
def hexDigit? (b : UInt8) : Option Nat :=
  if isDigitByte b then some (b.toNat - 0x30)
  else if 0x61 ≤ b && b ≤ 0x66 then some (b.toNat - 0x57)
  else if 0x41 ≤ b && b ≤ 0x46 then some (b.toNat - 0x37)
  else none

/-- The bytes written as pairs of hexadecimal digits. -/
def bytesOfHex? : Text → Option Text
  | [] => some []
  | [_] => none
  | a :: b :: r => do
    let hi ← hexDigit? a
    let lo ← hexDigit? b
    let rest ← bytesOfHex? r
    return (16 * hi + lo).toUInt8 :: rest

end Text
end Tarjuman
