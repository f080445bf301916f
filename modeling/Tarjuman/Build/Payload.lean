/-
# What caches keep

The fragments of a file and what was reported about it, without the number of the
file: it is put back in when the payload is used.
-/

import Tarjuman.Build.Options

namespace Tarjuman

/-- A note that is kept. -/
structure StoredNote where
  start : UInt32 := 0
  stop : UInt32 := 0
  message : Text := []
deriving DecidableEq, Repr, Inhabited

/-- A diagnostic that is kept. -/
structure StoredReport where
  code : UInt16 := 0
  severity : UInt8 := 0
  start : UInt32 := 0
  stop : UInt32 := 0
  message : Text := []
  notes : List StoredNote := []
deriving DecidableEq, Repr, Inhabited

namespace StoredReport

/-- Keep a diagnostic. -/
def ofDiagnostic (d : Diagnostic) : StoredReport :=
  { code := d.code.number, severity := d.severity.level, start := d.span.start, stop := d.span.stop
    message := d.message
    notes := d.notes.map fun n => ⟨n.span.start, n.span.stop, n.message⟩ }

/-- The diagnostic again, in a file; what has no severity is an error. -/
def toDiagnostic (file : FileId) (r : StoredReport) : Diagnostic :=
  let severity : Severity := ⟨r.severity⟩
  { severity := if severity.isKnown then severity else .error
    code := ⟨r.code⟩, span := ⟨file, r.start, r.stop⟩, message := r.message
    notes := r.notes.map fun n => ⟨⟨file, n.start, n.stop⟩, n.message⟩ }

end StoredReport

/-- The result for one file. -/
structure Payload where
  /-- The version of the format. -/
  schema : UInt16 := 0
  fragments : List Text := []
  /-- What was reported; `none` if the payload does not say. -/
  reports : Option (List StoredReport) := none
deriving DecidableEq, Repr, Inhabited

namespace Payload

/-- Keep the result of a file. -/
def ofResult (fragments : List Text) (reports : List Diagnostic) : Payload :=
  ⟨BuildOptions.schema, fragments, some (reports.map .ofDiagnostic)⟩

/-- The diagnostics again, in a file. -/
def diagnostics (p : Payload) (file : FileId) : List Diagnostic :=
  (p.reports.getD []).map (StoredReport.toDiagnostic file)

end Payload
end Tarjuman
