/-
# Spans

A span is a half-open range of byte offsets in one file of a file set.  Offsets
are 32-bit words: no file holds `2 ^ 32` bytes or more.
-/

import Tarjuman.Text.Number

namespace Tarjuman

/-- The number of a file in its file set. -/
abbrev FileId := UInt32

/-- The bytes from offset `start` up to offset `stop`, which is not included. -/
structure Span where
  file : FileId
  start : UInt32
  stop : UInt32
deriving DecidableEq, Repr, Inhabited

namespace Span

/-- The empty span at an offset. -/
def point (file : FileId) (off : UInt32) : Span := ⟨file, off, off⟩

/-- The span covers no byte; a stop before the start counts as empty. -/
def isEmpty (s : Span) : Bool := s.stop ≤ s.start

/-- The number of bytes covered. -/
def size (s : Span) : UInt32 := if s.isEmpty then 0 else s.stop - s.start

/-- The span as `file:start-stop`. -/
def render (s : Span) : Text :=
  Text.ofNat s.file.toNat ++ ":" ++ Text.ofNat s.start.toNat ++ "-" ++ Text.ofNat s.stop.toNat

/-- The covered bytes of a content; what lies outside of it is left out. -/
def slice (s : Span) (content : Text) : Text :=
  (content.drop s.start.toNat).take (s.stop.toNat - s.start.toNat)

end Span
end Tarjuman
