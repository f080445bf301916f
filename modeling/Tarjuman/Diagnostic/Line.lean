/-
# Diagnostics on single lines

One line for each diagnostic and for each of its notes, as
`label CODE path:line:column message`: in the order in which they were made, or
sorted by path and place.  What lies in no file of the set is left out.
-/

import Tarjuman.Diagnostic.Basic
import Tarjuman.Source.File
import Tarjuman.Text.Utf8

namespace Tarjuman

/-- A diagnostic or a note as one line. -/
structure DiagnosticLine where
  label : Text
  code : Text
  path : Text
  place : LineCol
  message : Text
deriving DecidableEq, Repr

namespace DiagnosticLine

/-- The line as text. -/
def render (l : DiagnosticLine) : Text :=
  l.label ++ " " ++ l.code ++ " " ++ l.path ++ ":" ++ Text.ofNat l.place.line.toNat ++ ":" ++
    Text.ofNat l.place.col.toNat ++ " " ++ l.message

/-- By path, place, label, code and message. -/
def order (a b : DiagnosticLine) : Ordering :=
  (Text.order a.path b.path).then <|
  (compare a.place.line b.place.line).then <|
  (compare a.place.col b.place.col).then <|
  (Text.order a.label b.label).then <|
  (Text.order a.code b.code).then <|
  Text.order a.message b.message

/-- A message without line ends, each of which becomes a space. -/
def oneLine : Text → Text
  | [] => []
  | [b] => [if b = 0x0D ∨ b = 0x0A then 0x20 else b]
  | a :: b :: r =>
    if a = 0x0D ∧ b = 0x0A then oneLine (b :: r)
    else (if a = 0x0D ∨ a = 0x0A then 0x20 else a) :: oneLine (b :: r)

/-- A path without `./` at its start. -/
def withoutDot : Text → Text
  | 0x2E :: 0x2F :: r => withoutDot r
  | p => p

/-- The line for a message at a span, if its file is in the set. -/
def at? (fs : FileSet) (cwd : Text) (label : Text) (code : Code) (span : Span) (message : Text) :
    Option DiagnosticLine :=
  (fs.get? span.file).map fun f =>
    { label, code := code.id
      path := withoutDot (f.displayPath cwd .relative (fs.baseDir cwd))
      place := (f.resolve span).1
      message := Text.trim (oneLine message) }

/-- The lines for one diagnostic. -/
def ofDiagnostic (fs : FileSet) (cwd : Text) (notes : Bool) (d : Diagnostic) :
    List DiagnosticLine :=
  (at? fs cwd d.severity.label d.code d.span d.message).toList ++
    if notes then d.notes.filterMap fun n => at? fs cwd "note" d.code n.span n.message else []

/-- The lines of diagnostics; none without a file set. -/
def ofDiagnostics (fs : Option FileSet) (cwd : Text) (notes : Bool) (ds : List Diagnostic) :
    List DiagnosticLine :=
  match fs with
  | some fs => ds.flatMap (ofDiagnostic fs cwd notes)
  | none => []

/-- The lines with line feeds between them. -/
def joined (ls : List DiagnosticLine) : Text := Text.join "\n" (ls.map render)

/-- The short form: lines in the order of the diagnostics. -/
def short (fs : Option FileSet) (cwd : Text) (notes : Bool) (ds : List Diagnostic) : Text :=
  joined (ofDiagnostics fs cwd notes ds)

/-- The golden form: lines sorted by path and place. -/
def golden (fs : Option FileSet) (cwd : Text) (notes : Bool) (ds : List Diagnostic) : Text :=
  joined ((ofDiagnostics fs cwd notes ds).mergeSort fun a b => order a b != .gt)

end DiagnosticLine
end Tarjuman
