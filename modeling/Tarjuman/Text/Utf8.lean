/-
# Characters inside a text

UTF-8 decoding that never fails: a position of a text holds either a character
or one byte that starts no valid encoding (a stray continuation byte, an
overlong form, a surrogate, a value above U+10FFFF or a cut-off sequence).
-/

import Tarjuman.Text.Basic

namespace Tarjuman
namespace Utf8

/-- One step of decoding. -/
inductive Item where
  /-- A validly encoded character. -/
  | char (c : Char)
  /-- A byte that belongs to no valid encoding. -/
  | stray (b : UInt8)
deriving DecidableEq, Repr

/-- U+FFFD, which stands for what cannot be decoded. -/
def replacement : Char := '�'

/-- The UTF-8 encoding of a character. -/
def encode (c : Char) : Text := String.utf8EncodeChar c

namespace Item

/-- The character, with U+FFFD for a stray byte. -/
def toChar : Item → Char
  | char c => c
  | stray _ => replacement

/-- The number of bytes the item takes up. -/
def size : Item → Nat
  | char c => c.utf8Size
  | stray _ => 1

/-- The bytes the item takes up. -/
def bytes : Item → Text
  | char c => encode c
  | stray b => [b]

end Item

/-- A continuation byte. -/
def isTail (b : UInt8) : Bool := 0x80 ≤ b && b ≤ 0xBF

/-- The character with code point `n`, if `n` is a scalar value. -/
def scalar? (n : Nat) : Option Char :=
  if h : n.isValidChar then some (Char.ofNatAux n h) else none

/-- The low six bits of a continuation byte. -/
def low6 (b : UInt8) : Nat := b.toNat % 64

/-- The character encoded at the head of the text, if there is one. -/
def decode? : Text → Option Char
  | [] => none
  | b₀ :: r =>
    if b₀ < 0x80 then scalar? b₀.toNat
    else if b₀ < 0xC2 then none
    else if b₀ < 0xE0 then
      match r with
      | b₁ :: _ => if isTail b₁ then scalar? (b₀.toNat % 32 * 64 + low6 b₁) else none
      | [] => none
    else if b₀ < 0xF0 then
      match r with
      | b₁ :: b₂ :: _ =>
        let n := (b₀.toNat % 16 * 64 + low6 b₁) * 64 + low6 b₂
        if isTail b₁ && isTail b₂ && 0x800 ≤ n then scalar? n else none
      | _ => none
    else if b₀ < 0xF5 then
      match r with
      | b₁ :: b₂ :: b₃ :: _ =>
        let n := ((b₀.toNat % 8 * 64 + low6 b₁) * 64 + low6 b₂) * 64 + low6 b₃
        if isTail b₁ && isTail b₂ && isTail b₃ && 0x10000 ≤ n then scalar? n else none
      | _ => none
    else none

/-- The number of bytes that the first byte of a sequence announces. -/
def announced (b : UInt8) : Nat :=
  if b < 0xC2 then 1 else if b < 0xE0 then 2 else if b < 0xF0 then 3
  else if b < 0xF8 then 4 else 1

/-- What stands at the head of the text; nothing at its end. -/
def head? (s : Text) : Option Item :=
  match s with
  | [] => none
  | b :: _ =>
    match decode? s with
    | some c => some (.char c)
    | none => some (.stray b)

/-- The items of the text; `skip` counts bytes of an item already given. -/
def itemsFrom : Nat → Text → List Item
  | _, [] => []
  | k + 1, _ :: r => itemsFrom k r
  | 0, b :: r =>
    match decode? (b :: r) with
    | some c => .char c :: itemsFrom (c.utf8Size - 1) r
    | none => .stray b :: itemsFrom 0 r

/-- The text as characters and stray bytes. -/
def items (s : Text) : List Item := itemsFrom 0 s

/-- The text is valid UTF-8. -/
def isValid (s : Text) : Bool :=
  (items s).all fun
    | .char _ => true
    | .stray _ => false

/-- The characters of the text, U+FFFD for each stray byte. -/
def chars (s : Text) : List Char := (items s).map Item.toChar

/-- The number of characters, each stray byte counted as one. -/
def count (s : Text) : Nat := (items s).length

/-- The UTF-8 encoding of characters. -/
def ofChars (cs : List Char) : Text := cs.flatMap encode

/-- The characters used as blanks: those of the Unicode property `White_Space`. -/
def isBlank (c : Char) : Bool :=
  let n := c.toNat
  (9 ≤ n && n ≤ 13) || n == 0x20 || n == 0x85 || n == 0xA0 || n == 0x1680 ||
    (0x2000 ≤ n && n ≤ 0x200A) || n == 0x2028 || n == 0x2029 || n == 0x202F ||
    n == 0x205F || n == 0x3000

/-- The item is a blank character. -/
def Item.isBlank : Item → Bool
  | .char c => Utf8.isBlank c
  | .stray _ => false

end Utf8

namespace Text

/-- The text without blank characters at either end. -/
def trim (s : Text) : Text :=
  let kept := ((Utf8.items s).dropWhile Utf8.Item.isBlank).reverse.dropWhile Utf8.Item.isBlank
  kept.reverse.flatMap Utf8.Item.bytes

/-- The ASCII letter a character becomes in lower case, if it becomes one:
A to Z, the Kelvin sign and the dotted capital I. -/
def lowerAscii (c : Char) : Char :=
  if 'A' ≤ c && c ≤ 'Z' then Char.ofNat (c.toNat + 32)
  else if c.toNat == 0x212A then 'k'
  else if c.toNat == 0x130 then 'i'
  else c

/-- The text with its letters in lower case, as far as ASCII words can tell. -/
def lower (s : Text) : Text :=
  (Utf8.items s).flatMap fun
    | .char c => Utf8.encode (lowerAscii c)
    | .stray b => [b]

end Text
end Tarjuman
