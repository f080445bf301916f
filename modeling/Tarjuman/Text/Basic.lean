/-
# Texts as byte strings

Source contents, names, paths and messages may hold any bytes, valid UTF-8 or
not, so a text is a list of bytes.  String literals stand for their UTF-8
encoding.  This file holds the operations that never look at characters:
affixes, search, replacement, splitting, joining and padding.
-/

namespace Tarjuman

/-- A text is a string of bytes. -/
abbrev Text := List UInt8

namespace Text

/-- The UTF-8 encoding of a string. -/
def ofString (s : String) : Text := s.toUTF8.data.toList

instance : Coe String Text := ⟨ofString⟩

/-- The byte of an ASCII character. -/
def byte (c : Char) : UInt8 := c.toNat.toUInt8

/-- The text holds `p` at its start. -/
def startsWith (s p : Text) : Bool := p.isPrefixOf s

/-- The text holds `p` at its end. -/
def endsWith (s p : Text) : Bool := p.isSuffixOf s

/-- What follows `p`, if the text starts with it. -/
def after? (s p : Text) : Option Text := p.isPrefixOf? s

/-- The text without `p` at its end, if it is there. -/
def dropEnd (s p : Text) : Text :=
  if s.endsWith p then s.take (s.length - p.length) else s

/-- Cut at the first occurrence of `p`: what stands before it and after it. -/
def cut? (p : Text) : Text → Option (Text × Text)
  | [] => if p.isEmpty then some ([], []) else none
  | b :: r =>
    match p.isPrefixOf? (b :: r) with
    | some rest => some ([], rest)
    | none => (cut? p r).map fun (before, rest) => (b :: before, rest)

/-- `p` occurs somewhere in the text. -/
def holds (s p : Text) : Bool := (cut? p s).isSome

/-- Every occurrence of `old`, found from the left without overlap, becomes
`new`; `skip` counts the bytes of an occurrence still to be passed over. -/
def replaceFrom (old new : Text) : Nat → Text → Text
  | _, [] => []
  | k + 1, _ :: r => replaceFrom old new k r
  | 0, b :: r =>
    if old.isPrefixOf (b :: r) then new ++ replaceFrom old new (old.length - 1) r
    else b :: replaceFrom old new 0 r

/-- Every occurrence of the non-empty text `old` becomes `new`. -/
def replace (s old new : Text) : Text := replaceFrom old new 0 s

/-- The pieces between the bytes equal to `sep`; never empty. -/
def splitOn (sep : UInt8) : Text → List Text
  | [] => [[]]
  | b :: r =>
    match splitOn sep r with
    | [] => [[b]]
    | piece :: more => if b == sep then [] :: piece :: more else (b :: piece) :: more

/-- The texts one after the other with `sep` between neighbours. -/
def join (sep : Text) (parts : List Text) : Text := sep.intercalate parts

/-- `n` copies of the text. -/
def times (n : Nat) (s : Text) : Text := (List.replicate n s).flatten

/-- `n` spaces. -/
def spaces (n : Nat) : Text := List.replicate n 0x20

/-- Blanks on the right up to `n` bytes. -/
def padRight (n : Nat) (s : Text) : Text := s ++ spaces (n - s.length)

/-- Blanks on the left up to `n` bytes. -/
def padLeft (n : Nat) (s : Text) : Text := spaces (n - s.length) ++ s

/-- The text under a condition, nothing otherwise. -/
def when (c : Bool) (s : Text) : Text := if c then s else []

/-- Lexicographic order of bytes. -/
def before (a b : Text) : Bool := decide (a < b)

/-- The text in byte order: `.lt`, `.eq` or `.gt`. -/
def order (a b : Text) : Ordering :=
  if a < b then .lt else if b < a then .gt else .eq

end Text
end Tarjuman
