/-
# Quoted text

Text between double quotes in which everything is visible: quotes and
backslashes are escaped, printable characters stand for themselves, and what
cannot be shown is written by its code.  `encode` writes the inside of the
quotes and `decode?` reads it, with octal codes allowed as well.
-/

import Tarjuman.Text.Number
import Tarjuman.Text.Utf8
import Tarjuman.Unicode.Printable

namespace Tarjuman
namespace Quoted

/-- The escapes of one letter: the letter and the byte it stands for. -/
def letters : List (Char × UInt8) :=
  [('a', 0x07), ('b', 0x08), ('f', 0x0C), ('n', 0x0A), ('r', 0x0D), ('t', 0x09), ('v', 0x0B)]

/-- A byte as `\x` and two hexadecimal digits. -/
def hexByte (b : UInt8) : Text := "\\x" ++ Text.hexPadded 2 b.toNat

/-- One character inside quotes. -/
def encodeChar (c : Char) : Text :=
  let n := c.toNat
  if c = '"' ∨ c = '\\' then [Text.byte '\\', n.toUInt8]
  else if Unicode.isPrintable c then Utf8.encode c
  else
    match letters.find? (·.2.toNat == n) with
    | some (l, _) => [Text.byte '\\', Text.byte l]
    | none =>
      if n < 0x80 then hexByte n.toUInt8
      else if n < 0x10000 then "\\u" ++ Text.hexPadded 4 n
      else "\\U" ++ Text.hexPadded 8 n

/-- One character between single quotes. -/
def charLiteral (c : Char) : Text :=
  let inside : Text := if c = '\'' then "\\'" else if c = '"' then Utf8.encode c else encodeChar c
  "'" ++ inside ++ "'"

/-- The inside of the quotes. -/
def encode (s : Text) : Text :=
  (Utf8.items s).flatMap fun
    | .char c => encodeChar c
    | .stray b => hexByte b

/-- The number that a list of hexadecimal digits denotes. -/
def hexValue? (ds : List UInt8) : Option Nat :=
  ds.foldlM (fun n d => (Text.hexDigit? d).map (16 * n + ·)) 0

/-- The number that a list of octal digits denotes. -/
def octalValue? (ds : List UInt8) : Option Nat :=
  ds.foldlM (fun n d => if 0x30 ≤ d && d ≤ 0x37 then some (8 * n + (d.toNat - 0x30)) else none) 0

/-- The character whose code a list of hexadecimal digits gives. -/
def codePoint? (ds : List UInt8) : Option Text :=
  (hexValue? ds).bind fun n => (Utf8.scalar? n).map Utf8.encode

/-- The text that the inside of the quotes stands for.  Bare quotes, bare line
feeds and unknown escapes are refused, and a stray byte becomes U+FFFD; `copy`
counts bytes of a character already accepted. -/
def decodeFrom : (copy : Nat) → Text → Option Text
  | _, [] => some []
  | k + 1, b :: r => (decodeFrom k r).map (b :: ·)
  | 0, b :: r =>
    if b = Text.byte '\\' then
      match r with
      | [] => none
      | e :: r =>
        if e = Text.byte 'x' then
          match r with
          | h :: l :: r => do
            let n ← hexValue? [h, l]
            let rest ← decodeFrom 0 r
            return n.toUInt8 :: rest
          | _ => none
        else if e = Text.byte 'u' then
          match r with
          | a :: b :: c :: d :: r => do
            let s ← codePoint? [a, b, c, d]
            let rest ← decodeFrom 0 r
            return s ++ rest
          | _ => none
        else if e = Text.byte 'U' then
          match r with
          | a :: b :: c :: d :: a' :: b' :: c' :: d' :: r => do
            let s ← codePoint? [a, b, c, d, a', b', c', d']
            let rest ← decodeFrom 0 r
            return s ++ rest
          | _ => none
        else if 0x30 ≤ e && e ≤ 0x37 then
          match r with
          | m :: l :: r => do
            let n ← octalValue? [e, m, l]
            let rest ← decodeFrom 0 r
            if n < 256 then some (n.toUInt8 :: rest) else none
          | _ => none
        else if e = Text.byte '\\' ∨ e = Text.byte '"' then (decodeFrom 0 r).map (e :: ·)
        else
          match letters.find? (Text.byte ·.1 == e) with
          | some (_, v) => (decodeFrom 0 r).map (v :: ·)
          | none => none
    else if b = Text.byte '"' ∨ b = 0x0A then none
    else
      match Utf8.decode? (b :: r) with
      | some c => (decodeFrom (c.utf8Size - 1) r).map (b :: ·)
      | none => (decodeFrom 0 r).map (Utf8.encode Utf8.replacement ++ ·)

/-- The text that the inside of the quotes stands for. -/
def decode? (s : Text) : Option Text := decodeFrom 0 s

end Quoted

/-- The text between quotes. -/
def Text.quoted (s : Text) : Text := "\"" ++ Quoted.encode s ++ "\""

end Tarjuman
