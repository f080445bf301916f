/-
# Diagnostics as a JSON document
-/

import Tarjuman.Diagnostic.Pretty
import Tarjuman.Text.Json

namespace Tarjuman
namespace DiagnosticDocument

/-- What the document says about each diagnostic. -/
structure Options where
  /-- Lines and columns besides offsets. -/
  positions : Bool := false
  paths : PathStyle := .stored
  /-- The number of diagnostics after which the document stops, if it is positive. -/
  limit : Int := 0
  notes : Bool := false

/-- The place of a span in a file. -/
def location (fs : FileSet) (cwd : Text) (o : Options) (f : SourceFile) (span : Span) : Json :=
  let (start, stop) := f.resolve span
  let lines := if o.positions then
    [Json.countUnlessZero "start_line" start.line.toNat,
     Json.countUnlessZero "start_col" start.col.toNat,
     Json.countUnlessZero "end_line" stop.line.toNat,
     Json.countUnlessZero "end_col" stop.col.toNat] else []
  Json.record <|
    [Json.text "file" (f.displayPath cwd o.paths (fs.baseDir cwd)),
     Json.count "start_byte" span.start.toNat, Json.count "end_byte" span.stop.toNat] ++ lines

/-- The field with a place, if its file is in the set. -/
def place (fs : Option FileSet) (cwd : Text) (o : Options) (detached : Bool) (span : Span) :
    Json.Field :=
  match fs with
  | some fs =>
    match fs.get? span.file with
    | some f => if detached then [] else Json.field "location" (location fs cwd o f span)
    | none => []
  | none => []

/-- One diagnostic. -/
def entry (fs : Option FileSet) (cwd : Text) (o : Options) (d : Diagnostic) : Json :=
  let detached := Pretty.isDetached d.code
  let notes := if Pretty.showsNotes o.notes d.code then d.notes else []
  Json.record
    [Json.text "origin" d.origin.name, Json.text "severity" d.severity.name,
     Json.text "code" d.code.id, Json.text "message" d.message,
     place fs cwd o detached d.span,
     Json.itemsUnlessEmpty "notes" (notes.map fun n =>
       Json.record [Json.text "message" n.message, place fs cwd o detached n.span])]

/-- The document. -/
def build (fs : Option FileSet) (cwd : Text) (o : Options) (ds : List Diagnostic) : Json :=
  let ds := if 0 < o.limit then ds.take o.limit.toNat else ds
  Json.record
    [Json.field "diagnostics" (.array (ds.map (entry fs cwd o))), Json.count "count" ds.length]

/-- The text of the document. -/
def render (fs : Option FileSet) (cwd : Text) (o : Options) (ds : List Diagnostic) : Text :=
  (build fs cwd o ds).document

end DiagnosticDocument
end Tarjuman
