/-
# Diagnostics for readers

Each diagnostic with the source line it is about and a marker under it:

    main.lugha:4:10: ERROR TRN3001: unbound identifier "x"
    3 | previous line
    4 | the line
      |     ^~~

The marker is aligned by terminal cells, and tabs before it stay tabs.
-/

import Tarjuman.Diagnostic.Bag
import Tarjuman.Source.File
import Tarjuman.Terminal.Paint
import Tarjuman.Unicode.Cluster

namespace Tarjuman
namespace Pretty

/-- How many cells a terminal has for a text, and how a text is cut to some of them. -/
structure Widths where
  cells : Text → Int
  truncate : Text → Nat → Text → Text

/-- The widths of clusters. -/
def Widths.clusters : Widths where
  cells s := Text.cells s
  truncate := Text.truncate

/-- How diagnostics are shown. -/
structure Options where
  colour : Bool := false
  /-- The number of lines shown above the one a diagnostic is about. -/
  context : Int := 0
  paths : PathStyle := .stored
  /-- The number of cells after which lines are cut; zero for no cut. -/
  width : Nat := 0
  notes : Bool := false
  widths : Widths := .clusters

/-- Findings about a whole run, which are shown without a place. -/
def isDetached (code : Code) : Bool := code = .loadFailure ∨ code = .timings

/-- Notes are shown if they are asked for; the report on timings is nothing
without its note. -/
def showsNotes (wanted : Bool) (code : Code) : Bool := wanted || code = .timings

/-- The file a span lies in and its place there as `path:line:column`. -/
def place? (fs : Option FileSet) (cwd : Text) (paths : PathStyle) (span : Span) :
    Option (SourceFile × Text) := do
  let fs ← fs
  let f ← fs.get? span.file
  let start := (f.resolve span).1
  return (f, f.displayPath cwd paths (fs.baseDir cwd) ++ ":" ++ Text.ofNat start.line.toNat ++
    ":" ++ Text.ofNat start.col.toNat)

/-- The colour of a severity. -/
def severityPaint (s : Severity) : Paint :=
  if s = .error then Paint.red.inBold
  else if s = .warning then Paint.yellow.inBold
  else Paint.cyan.inBold

/-- The number of bytes of a line before a column. -/
def bytesBefore (line : Text) (col : UInt32) : Nat := min (col.toNat - 1) line.length

/-- Blanks as wide as the text; tabs stay. -/
def blankOut (w : Widths) (s : Text) : Text :=
  Text.join "\t" ((Text.splitOn 0x09 s).map fun run => Text.spaces (w.cells run).toNat)

/-- A caret and as many tildes as the text has further cells. -/
def marker (w : Widths) (s : Text) : Text :=
  "^" ++ List.replicate (w.cells s - 1).toNat (Text.byte '~')

/-- One line of source behind its number. -/
def numbered (o : Options) (f : SourceFile) (gutter n : Nat) : Text :=
  let line := f.line (UInt32.ofNat n)
  Paint.blue.apply o.colour (Text.padLeft gutter (Text.ofNat n) ++ " |") ++ " " ++
    (if 0 < o.width then o.widths.truncate line o.width "…" else line) ++ "\n"

/-- The first line shown for a diagnostic on line `n`. -/
def firstLine (o : Options) (n : Nat) : Nat :=
  if 0 < o.context then (max 1 ((n : Int) - o.context)).toNat else n

/-- The lines of source around a span and the marker under it. -/
def snippet (o : Options) (f : SourceFile) (span : Span) : Text :=
  let (start, stop) := f.resolve span
  let n := start.line.toNat
  let first := firstLine o n
  let gutter := (Text.ofNat n).length
  let line := f.line start.line
  let col := bytesBefore line start.col
  let last := if stop.line = start.line then bytesBefore line stop.col else line.length
  (List.range' first (n + 1 - first)).flatMap (numbered o f gutter) ++
    Paint.blue.apply o.colour (Text.spaces gutter ++ " |") ++ " " ++
    blankOut o.widths (line.take col) ++
    Paint.magenta.inBold.apply o.colour (marker o.widths ((line.take last).drop col)) ++ "\n"

/-- One note. -/
def note (fs : Option FileSet) (cwd : Text) (o : Options) (detached : Bool) (n : Note) : Text :=
  let mark := "  " ++ Paint.green.apply o.colour "note:" ++ " "
  match (if detached then none else place? fs cwd o.paths n.span) with
  | some (_, place) => mark ++ place ++ ": " ++ n.message ++ "\n"
  | none => mark ++ n.message ++ "\n"

/-- One diagnostic. -/
def diagnostic (fs : Option FileSet) (cwd : Text) (o : Options) (d : Diagnostic) : Text :=
  let what := (severityPaint d.severity).apply o.colour d.severity.name ++ " " ++ d.code.id ++
    ": " ++ d.message ++ "\n"
  let detached := isDetached d.code
  let head :=
    match (if detached then none else place? fs cwd o.paths d.span) with
    | some (f, place) => Paint.heavy.apply o.colour place ++ ": " ++ what ++ snippet o f d.span
    | none => what
  head ++ if showsNotes o.notes d.code then d.notes.flatMap (note fs cwd o detached) else []

/-- All diagnostics, an empty line between them. -/
def render (fs : Option FileSet) (cwd : Text) (o : Options) (ds : List Diagnostic) : Text :=
  Text.join "\n" (ds.map (diagnostic fs cwd o))

end Pretty
end Tarjuman
