/-
# Printing with every access checked

The spans of diagnostics may come from a cache and are not to be trusted: a span
can lie in no file, behind the end of one or inside a character, and it can stop
before it starts.  Here are the printers of diagnostics with each read of a list,
each cut of a list and each number of copies checked against its bounds.  A
printer that leaves them gives no text but says which bounds it left.  The loop
over line numbers is given a number of rounds.
-/

import Tarjuman.Diagnostic.Document
import Tarjuman.Diagnostic.Line

namespace Tarjuman
namespace Checked

/-- Why there is no text. -/
inductive Fault where
  /-- A read outside of a list. -/
  | index
  /-- A cut that leaves a list or stops before it starts. -/
  | cut
  /-- Fewer than no copies of a byte. -/
  | count
  /-- A loop that has not ended after the rounds it was given. -/
  | unfinished
deriving DecidableEq, Repr

/-- Entry number `i`. -/
def read {α : Type} (xs : List α) (i : Int) : Except Fault α :=
  if i < 0 then .error .index
  else
    match xs[i.toNat]? with
    | some x => .ok x
    | none => .error .index

/-- The entries from `start` up to `stop`, which is not included. -/
def cut {α : Type} (xs : List α) (start stop : Int) : Except Fault (List α) :=
  if 0 ≤ start ∧ start ≤ stop ∧ stop ≤ xs.length then
    .ok ((xs.take stop.toNat).drop start.toNat)
  else .error .cut

/-- `n` copies of a byte. -/
def copies (n : Int) (b : UInt8) : Except Fault Text :=
  if n < 0 then .error .count else .ok (List.replicate n.toNat b)

theorem length_of_cut_eq_ok {α : Type} {xs ys : List α} {start stop : Int}
    (h : cut xs start stop = .ok ys) : 0 ≤ start ∧ (ys.length : Int) = stop - start := by
  rw [cut] at h
  split at h
  · obtain rfl := Except.ok.inj h
    simp only [List.length_drop, List.length_take]
    omega
  · cases h

/-! ## Places and lines -/

/-- The file with a number. -/
def file (fs : Option FileSet) (id : FileId) : Except Fault SourceFile :=
  read (fs.elim [] (·.files.toList)) id.toNat

/-- How many line feeds stand before an offset, by halving the range from `lo` to `hi`. -/
def breaksBefore (breaks : List UInt32) (off : UInt32) (lo hi : Nat) : Except Fault Nat :=
  if lo < hi then do
    let mid := (lo + hi) / 2
    let b ← read breaks mid
    if b < off then breaksBefore breaks off (mid + 1) hi else breaksBefore breaks off lo mid
  else return lo
termination_by hi - lo

/-- The place of an offset, given the offsets of the line feeds. -/
def lineCol (breaks : List UInt32) (off : UInt32) : Except Fault LineCol := do
  let before ← breaksBefore breaks off 0 breaks.length
  let start ← if before = 0 then pure 0 else (· + 1) <$> read breaks ((before : Int) - 1)
  return ⟨UInt32.ofNat before + 1, off - start + 1⟩

/-- The places of both ends of a span. -/
def resolve (fs : Option FileSet) (span : Span) : Except Fault (LineCol × LineCol) := do
  let f ← file fs span.file
  let start ← lineCol f.breaks span.start
  let stop ← lineCol f.breaks span.stop
  return (start, stop)

/-- The first offset of a line: behind the line feed before it. -/
def lineStart (f : SourceFile) (n : UInt32) : Except Fault UInt32 :=
  if n > 1 then (· + 1) <$> read f.breaks (n - 2).toNat else return 0

/-- The first offset behind a line: its line feed or the end of the content. -/
def lineStop (f : SourceFile) (n : UInt32) : Except Fault UInt32 :=
  if n ≤ UInt32.ofNat f.breaks.length then read f.breaks (n - 1).toNat
  else return UInt32.ofNat f.content.length

/-- The first offset of a line and the first one behind it, if there is such a
line. -/
def lineBounds? (f : SourceFile) (n : UInt32) : Except Fault (Option (UInt32 × UInt32)) :=
  if n = 0 ∨ n > UInt32.ofNat f.breaks.length + 1 then return none
  else do
    let start ← lineStart f n
    let stop ← lineStop f n
    return if start ≥ UInt32.ofNat f.content.length then none else some (start, stop)

/-- A line without its line feed; nothing if there is no such line. -/
def line (f : SourceFile) (n : UInt32) : Except Fault Text := do
  match ← lineBounds? f n with
  | some bounds => cut f.content bounds.1.toNat bounds.2.toNat
  | none => return []

/-- The file a span lies in and the place where the span starts. -/
def start? (fs : Option FileSet) (span : Span) : Except Fault (Option (SourceFile × LineCol)) :=
  if fs.any (·.has span.file) then do
    let f ← file fs span.file
    let ends ← resolve fs span
    return some (f, ends.1)
  else return none

/-- The directory in which relative paths start. -/
def baseDir (fs : Option FileSet) (cwd : Text) : Text := fs.elim [] (·.baseDir cwd)

/-- The names of the severities in use, in capitals and in small letters. -/
def severityNames : List (Text × Text) :=
  [("INFO", "info"), ("WARNING", "warning"), ("ERROR", "error")]

/-- Both names of a severity. -/
def names (s : Severity) : Except Fault (Text × Text) :=
  if s.isKnown then read severityNames s.level.toNat else return ("UNKNOWN", "unknown")

/-! ## For readers -/

/-- The number of bytes of a line before a column. -/
def bytesBefore (line : Text) (col : UInt32) : Int :=
  min (max ((col.toNat : Int) - 1) 0) line.length

/-- Blanks as wide as the text; tabs stay. -/
def blankOut (w : Pretty.Widths) (s : Text) : Except Fault Text := do
  let runs ← (Text.splitOn 0x09 s).mapM fun run => copies (w.cells run) 0x20
  return Text.join "\t" runs

/-- A caret and as many tildes as the text has further cells. -/
def marker (w : Pretty.Widths) (s : Text) : Except Fault Text := do
  let tildes ← copies (max 1 (w.cells s) - 1) (Text.byte '~')
  return "^" ++ tildes

/-- One line of source behind its number. -/
def numbered (o : Pretty.Options) (f : SourceFile) (gutter : Nat) (n : UInt32) :
    Except Fault Text := do
  let line ← line f n
  return Paint.blue.apply o.colour (Text.padLeft gutter (Text.ofNat n.toNat) ++ " |") ++ " " ++
    (if 0 < o.width then o.widths.truncate line o.width "…" else line) ++ "\n"

/-- The lines of source from `n` up to `last`, if that takes fewer than so many
rounds.  Line numbers are words, and no word is behind the last one. -/
def numberedUpTo (o : Pretty.Options) (f : SourceFile) (gutter : Nat) (last : UInt32) :
    Nat → UInt32 → Except Fault Text
  | 0, _ => .error .unfinished
  | rounds + 1, n =>
    if n ≤ last then do
      let line ← numbered o f gutter n
      let more ← numberedUpTo o f gutter last rounds (n + 1)
      return line ++ more
    else return []

/-- The marker under a line, from the first place to the second or to the end of the line. -/
def underline (o : Pretty.Options) (gutter : Nat) (line : Text) (start stop : LineCol) :
    Except Fault Text := do
  let col := bytesBefore line start.col
  let last := if stop.line = start.line then bytesBefore line stop.col else line.length
  let before ← cut line 0 col
  let pad ← blankOut o.widths before
  let covered ← cut line col (max col last)
  let mark ← marker o.widths covered
  return Paint.blue.apply o.colour (Text.spaces gutter ++ " |") ++ " " ++ pad ++
    Paint.magenta.inBold.apply o.colour mark ++ "\n"

/-- The lines of source around a span and the marker under it. -/
def snippet (rounds : Nat) (fs : Option FileSet) (o : Pretty.Options) (f : SourceFile)
    (span : Span) : Except Fault Text := do
  let ends ← resolve fs span
  let n := ends.1.line
  let gutter := (Text.ofNat n.toNat).length
  let above ← numberedUpTo o f gutter n rounds (UInt32.ofNat (Pretty.firstLine o n.toNat))
  let line ← line f n
  let below ← underline o gutter line ends.1 ends.2
  return above ++ below

/-- The file a span lies in and its place there as `path:line:column`. -/
def place? (fs : Option FileSet) (cwd : Text) (paths : PathStyle) (span : Span) :
    Except Fault (Option (SourceFile × Text)) := do
  let start ← start? fs span
  return start.map fun p =>
    (p.1, p.1.displayPath cwd paths (baseDir fs cwd) ++ ":" ++ Text.ofNat p.2.line.toNat ++ ":" ++
      Text.ofNat p.2.col.toNat)

/-- One note. -/
def note (fs : Option FileSet) (cwd : Text) (o : Pretty.Options) (detached : Bool) (n : Note) :
    Except Fault Text := do
  let mark := "  " ++ Paint.green.apply o.colour "note:" ++ " "
  let place ← place? fs cwd o.paths n.span
  match (if detached then none else place) with
  | some found => return mark ++ found.2 ++ ": " ++ n.message ++ "\n"
  | none => return mark ++ n.message ++ "\n"

/-- A diagnostic without its notes. -/
def finding (rounds : Nat) (fs : Option FileSet) (cwd : Text) (o : Pretty.Options)
    (d : Diagnostic) : Except Fault Text := do
  let names ← names d.severity
  let what := (Pretty.severityPaint d.severity).apply o.colour names.1 ++ " " ++ d.code.id ++
    ": " ++ d.message ++ "\n"
  let place ← place? fs cwd o.paths d.span
  match (if Pretty.isDetached d.code then none else place) with
  | some found =>
    let shown ← snippet rounds fs o found.1 d.span
    return Paint.heavy.apply o.colour found.2 ++ ": " ++ what ++ shown
  | none => return what

/-- The notes of a diagnostic, if they are shown. -/
def notes (fs : Option FileSet) (cwd : Text) (o : Pretty.Options) (d : Diagnostic) :
    Except Fault Text := do
  let texts ← (if Pretty.showsNotes o.notes d.code then d.notes else []).mapM
    (note fs cwd o (Pretty.isDetached d.code))
  return texts.flatten

/-- One diagnostic. -/
def diagnostic (rounds : Nat) (fs : Option FileSet) (cwd : Text) (o : Pretty.Options)
    (d : Diagnostic) : Except Fault Text := do
  let head ← finding rounds fs cwd o d
  let notes ← notes fs cwd o d
  return head ++ notes

/-- All diagnostics, an empty line between them. -/
def pretty (rounds : Nat) (fs : Option FileSet) (cwd : Text) (o : Pretty.Options)
    (ds : List Diagnostic) : Except Fault Text := do
  let texts ← ds.mapM (diagnostic rounds fs cwd o)
  return Text.join "\n" texts

/-! ## As a JSON document -/

/-- The lines and columns of a span, if they are asked for. -/
def positions (fs : Option FileSet) (o : DiagnosticDocument.Options) (span : Span) :
    Except Fault (List Json.Field) :=
  if o.positions then do
    let ends ← resolve fs span
    return [Json.countUnlessZero "start_line" ends.1.line.toNat,
      Json.countUnlessZero "start_col" ends.1.col.toNat,
      Json.countUnlessZero "end_line" ends.2.line.toNat,
      Json.countUnlessZero "end_col" ends.2.col.toNat]
  else return []

/-- The field with a place, if its file is in the set. -/
def location (fs : Option FileSet) (cwd : Text) (o : DiagnosticDocument.Options) (detached : Bool)
    (span : Span) : Except Fault Json.Field :=
  if !detached && fs.any (·.has span.file) then do
    let f ← file fs span.file
    let lines ← positions fs o span
    return Json.field "location" <| Json.record <|
      [Json.text "file" (f.displayPath cwd o.paths (baseDir fs cwd)),
       Json.count "start_byte" span.start.toNat, Json.count "end_byte" span.stop.toNat] ++ lines
  else return []

/-- One note. -/
def remark (fs : Option FileSet) (cwd : Text) (o : DiagnosticDocument.Options) (detached : Bool)
    (n : Note) : Except Fault Json := do
  let place ← location fs cwd o detached n.span
  return Json.record [Json.text "message" n.message, place]

/-- One diagnostic. -/
def entry (fs : Option FileSet) (cwd : Text) (o : DiagnosticDocument.Options) (d : Diagnostic) :
    Except Fault Json := do
  let detached := Pretty.isDetached d.code
  let names ← names d.severity
  let place ← location fs cwd o detached d.span
  let notes ←
    (if Pretty.showsNotes o.notes d.code then d.notes else []).mapM (remark fs cwd o detached)
  return Json.record
    [Json.text "origin" d.origin.name, Json.text "severity" names.1, Json.text "code" d.code.id,
     Json.text "message" d.message, place, Json.itemsUnlessEmpty "notes" notes]

/-- As many diagnostics as a document may hold. -/
def upTo (limit : Int) (ds : List Diagnostic) : Except Fault (List Diagnostic) :=
  if 0 < limit ∧ limit < ds.length then cut ds 0 limit else return ds

/-- The document. -/
def document (fs : Option FileSet) (cwd : Text) (o : DiagnosticDocument.Options)
    (ds : List Diagnostic) : Except Fault Json := do
  let ds ← upTo o.limit ds
  let entries ← ds.mapM (entry fs cwd o)
  return Json.record
    [Json.field "diagnostics" (.array entries), Json.count "count" entries.length]

/-! ## On single lines -/

/-- A path without `./` at its start. -/
def withoutDot (p : Text) : Except Fault Text :=
  if Text.startsWith p "./" then
    match _ : cut p 2 p.length with
    | .ok r => withoutDot r
    | .error fault => .error fault
  else return p
termination_by p.length
decreasing_by
  have hlen := (length_of_cut_eq_ok ‹cut p 2 p.length = .ok r›).2
  omega

/-- The line for a message at a span, if its file is in the set. -/
def at? (fs : Option FileSet) (cwd : Text) (label : Text) (code : Code) (span : Span)
    (message : Text) : Except Fault (Option DiagnosticLine) := do
  match ← start? fs span with
  | some found =>
    let path ← withoutDot (found.1.displayPath cwd .relative (baseDir fs cwd))
    return some { label, code := code.id, path, place := found.2
                  message := Text.trim (DiagnosticLine.oneLine message) }
  | none => return none

/-- The lines for one diagnostic. -/
def linesOf (fs : Option FileSet) (cwd : Text) (notes : Bool) (d : Diagnostic) :
    Except Fault (List DiagnosticLine) := do
  let names ← names d.severity
  let first ← at? fs cwd names.2 d.code d.span d.message
  let more ← (if notes then d.notes else []).mapM fun n =>
    at? fs cwd "note" d.code n.span n.message
  return first.toList ++ more.filterMap id

/-- The lines of diagnostics; none without a file set. -/
def lines (fs : Option FileSet) (cwd : Text) (notes : Bool) (ds : List Diagnostic) :
    Except Fault (List DiagnosticLine) :=
  if fs.isNone then return []
  else do
    let lines ← ds.mapM (linesOf fs cwd notes)
    return lines.flatten

/-- The short form: lines in the order of the diagnostics. -/
def short (fs : Option FileSet) (cwd : Text) (notes : Bool) (ds : List Diagnostic) :
    Except Fault Text := do
  let lines ← lines fs cwd notes ds
  return DiagnosticLine.joined lines

/-- The golden form: lines sorted by path and place. -/
def golden (fs : Option FileSet) (cwd : Text) (notes : Bool) (ds : List Diagnostic) :
    Except Fault Text := do
  let lines ← lines fs cwd notes ds
  return DiagnosticLine.joined (lines.mergeSort fun a b => DiagnosticLine.order a b != .gt)

end Checked
end Tarjuman
