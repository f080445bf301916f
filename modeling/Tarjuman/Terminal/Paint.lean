/-
# Colours on a terminal

Text between the control sequences that switch a colour on and off again.
-/

import Tarjuman.Text.Number

namespace Tarjuman

/-- Colours and weight of a text. -/
structure Paint where
  /-- The number of the colour, if there is one. -/
  colour : Option Nat
  bold : Bool
deriving DecidableEq, Repr

namespace Paint

def red : Paint := ⟨some 31, false⟩
def green : Paint := ⟨some 32, false⟩
def yellow : Paint := ⟨some 33, false⟩
def blue : Paint := ⟨some 34, false⟩
def magenta : Paint := ⟨some 35, false⟩
def cyan : Paint := ⟨some 36, false⟩
def heavy : Paint := ⟨none, true⟩

/-- The same colour in bold. -/
def inBold (p : Paint) : Paint := { p with bold := true }

/-- A control sequence. -/
def sequence (codes : List Nat) : Text :=
  0x1B :: ("[" ++ Text.join ";" (codes.map Text.ofNat) ++ "m")

/-- The text in these colours, if colours are on. -/
def apply (p : Paint) (on : Bool) (s : Text) : Text :=
  if on then
    sequence (p.colour.toList ++ if p.bold then [1] else []) ++ s ++
      sequence (p.colour.toList.map (fun _ => 0) ++ if p.bold then [22] else [])
  else s

end Paint
end Tarjuman
