/-
# The text of an editor

A buffer holds characters, with the cursor behind the last one.  Whatever is typed
or read into it is cleaned first: line ends of either kind become line feeds, a
tab becomes four spaces, and other control characters and bytes that form no
character are dropped.  A buffer has a limited number of lines.
-/

import Tarjuman.Text.Utf8

namespace Tarjuman

/-- The characters of an editor. -/
structure Buffer where
  chars : List Char := []
deriving DecidableEq, Repr

namespace Buffer

/-- The largest number of lines. -/
def lineLimit : Nat := 99

/-- What a character becomes in a buffer. -/
def cleaned (c : Char) : List Char :=
  if c = Utf8.replacement then []
  else if c = '\r' ∨ c = '\n' then ['\n']
  else if c = '\t' then [' ', ' ', ' ', ' ']
  else if c.toNat < 0x20 ∨ (0x7F ≤ c.toNat ∧ c.toNat < 0xA0) then []
  else [c]

/-- The number of lines. -/
def lineCount (b : Buffer) : Nat := b.chars.count '\n' + 1

/-- The first `n` lines of some characters. -/
def firstLines : (n : Nat) → List Char → List Char
  | 0, _ => []
  | _, [] => []
  | n + 1, c :: r =>
    if c = '\n' then (if n = 0 then [] else c :: firstLines n r) else c :: firstLines (n + 1) r

/-- Add a text at the end, as many of its lines as there is room for. -/
def insert (b : Buffer) (s : Text) : Buffer :=
  ⟨b.chars ++ firstLines (lineLimit + 1 - b.lineCount) ((Utf8.chars s).flatMap cleaned)⟩

/-- The buffer with a text. -/
def ofText (s : Text) : Buffer := ({} : Buffer).insert s

/-- Begin a line if there is room for one. -/
def newLine (b : Buffer) : Buffer := if lineLimit ≤ b.lineCount then b else ⟨b.chars ++ ['\n']⟩

/-- Take away the last character or line end. -/
def eraseLast (b : Buffer) : Buffer := ⟨b.chars.dropLast⟩

/-- The text of the buffer. -/
def text (b : Buffer) : Text := Utf8.ofChars b.chars

end Buffer
end Tarjuman
