/-
# Reading positions

A cursor is a position in a content: the bytes still to be read, their offset
and the line they start on.  Offset and line are 32-bit words that wrap; the
line grows by one for every line feed that is passed.
-/

import Tarjuman.Source.Span
import Tarjuman.Text.Utf8

namespace Tarjuman

/-- A position in a file. -/
structure Cursor where
  file : FileId
  /-- The bytes from here to the end. -/
  rest : Text
  off : UInt32 := 0
  line : UInt32 := 1
deriving DecidableEq, Repr

namespace Cursor

/-- The line feed. -/
def lineFeed : UInt8 := 0x0A

/-- The number of line feeds in a text, as a word. -/
def lineFeeds (s : Text) : UInt32 := UInt32.ofNat (s.count lineFeed)

/-- The start of a content. -/
def start (file : FileId) (content : Text) : Cursor := { file, rest := content }

/-- Pass over `n` bytes, or over all that are left. -/
def skip (c : Cursor) (n : Nat) : Cursor :=
  let passed := c.rest.take n
  { c with
    rest := c.rest.drop n
    off := c.off + UInt32.ofNat passed.length
    line := c.line + lineFeeds passed }

/-- The next byte. -/
def peek? (c : Cursor) : Option UInt8 := c.rest.head?

/-- The character or stray byte that is next. -/
def peekItem? (c : Cursor) : Option Utf8.Item := Utf8.head? c.rest

/-- What was read since an earlier position. -/
def spanFrom (c since : Cursor) : Span := ⟨c.file, since.off, c.off⟩

/-- The `size` bytes that start `lead` bytes further on. -/
def span (c : Cursor) (lead size : Nat) : Span :=
  ⟨c.file, c.off + UInt32.ofNat lead, c.off + UInt32.ofNat (lead + size)⟩

@[simp] theorem length_rest_skip (c : Cursor) (n : Nat) :
    (c.skip n).rest.length = c.rest.length - n := by
  simp [skip]

end Cursor
end Tarjuman
