/-
# The run of a command

A session is what a command changes: files, what was printed, and the trace.  A
command ends with success or with a failure, and keeps what it has done until then.
-/

import Tarjuman.Build.Job
import Tarjuman.Command.Arguments
import Tarjuman.Command.Value
import Tarjuman.Diagnostic.Document
import Tarjuman.Diagnostic.Line
import Tarjuman.Diagnostic.Pretty
import Tarjuman.Release

namespace Tarjuman

/-- What a command finds around it besides files. -/
structure Setting where
  release : Release := {}
  /-- Where caches go, if it is told. -/
  cacheHome : Text := []
  /-- The home directory, if it is told. -/
  home : Text := []
  /-- Output goes to a terminal. -/
  outIsTerminal : Bool := false
  /-- Messages go to a terminal. -/
  errIsTerminal : Bool := false
  /-- The digits of the time. -/
  stamp : Nat := 0

/-- How a command fails. -/
inductive Failure where
  /-- Errors were shown as diagnostics. -/
  | reported
  | message (s : Text)
deriving DecidableEq, Repr

namespace Failure

/-- The failure in words. -/
def text : Failure → Text
  | reported => "errors were reported"
  | message s => s

end Failure

/-- What a command changes. -/
structure Session where
  disk : Disk
  tracer : Tracer := .silent
  /-- The span of the whole command. -/
  span : Option TraceSpan := none
  /-- The file of the trace, if there is one. -/
  traceFile : Option Text := none
  /-- The file of a profile that is written at the end. -/
  heapFile : Option Text := none
  out : Text := []
  err : Text := []

namespace Session

/-- What jobs need of a session. -/
def shared (s : Session) : Shared := { disk := s.disk, tracer := s.tracer }

/-- The session after jobs. -/
def withShared (s : Session) (sh : Shared) : Session :=
  { s with disk := sh.disk, tracer := sh.tracer }

/-- Write the profile that is due at the end. -/
def closeProfile (s : Session) : Session :=
  match s.heapFile with
  | none => s
  | some path =>
    match s.disk.write path [] with
    | .ok disk => { s with disk }
    | .error fault => { s with err := s.err ++ "profile: heap profile: " ++ fault.message ++ "\n" }

/-- End the trace and write it. -/
def closeTrace (s : Session) : Session :=
  let s := { s with tracer := s.tracer.spanEnd s.span [] }
  match s.traceFile with
  | none => s
  | some path =>
    match s.disk.write path s.tracer.output with
    | .ok disk => { s with disk }
    | .error _ => s

/-- All that is due at the end, whether the command failed or not. -/
def close (s : Session) : Session := s.closeProfile.closeTrace

end Session

/-- A part of a command. -/
abbrev Run := ExceptT Failure (StateM Session)

namespace Run

/-- Fail with a message. -/
def fail {α : Type} (message : Text) : Run α := throw (.message message)

/-- Print. -/
def print (s : Text) : Run Unit := modify fun st => { st with out := st.out ++ s }

/-- Print a message. -/
def warn (s : Text) : Run Unit := modify fun st => { st with err := st.err ++ s }

/-- Fail if something was refused, and go on with the disk otherwise. -/
def onDisk (f : Disk → Disk × Option Text) : Run Unit := do
  let (disk, fault) := f (← get).disk
  modify fun st => { st with disk }
  match fault with
  | some message => fail message
  | none => pure ()

/-- Fail after errors were shown. -/
def failIf (errors : Bool) : Run Unit := if errors then throw .reported else pure ()

end Run

/-- The options of the whole program. -/
structure Globals where
  colour : Switch
  quiet : Bool
  timings : Bool
  maxDiagnostics : Int

namespace Globals

/-- Read the options of the whole program. -/
def read (c : Command) (p : Arguments.Parsed) : Run Globals := do
  let value := p.text c "color"
  match Switch.ofName? value with
  | none => Run.fail (Switch.badName "color" value)
  | some colour =>
    return ⟨colour, p.truth c "quiet", p.truth c "timings", p.number c "max-diagnostics"⟩

/-- The options of a build that do not shape scripts. -/
def buildOptions (g : Globals) : BuildOptions :=
  { maxDiagnostics := g.maxDiagnostics, timings := g.timings }

end Globals

/-- How diagnostics are printed. -/
inductive ReportFormat where
  | pretty
  | short
  | json
deriving DecidableEq, Repr

namespace ReportFormat

/-- The format with a name. -/
def ofName? (s : Text) : Option ReportFormat :=
  if s = "pretty" then some pretty
  else if s = "short" then some short
  else if s = "json" then some json
  else none

/-- Read the name of a format. -/
def read (s : Text) : Run ReportFormat :=
  match ofName? s with
  | some format => pure format
  | none =>
    Run.fail
      ("unknown diagnostics format " ++ Text.quoted s ++ " (expected pretty|short|json)")

/-- The diagnostics of a bag; an empty bag shows only as an empty document. -/
def render (format : ReportFormat) (colour : Bool) (cwd : Text) (fs : FileSet) (bag : Bag) : Text :=
  let ds := bag.toList
  match format with
  | pretty =>
    Text.when (!ds.isEmpty)
      (Pretty.render (some fs) cwd
        { colour, context := 1, paths := .auto, width := 0, notes := true } ds)
  | short => Text.when (!ds.isEmpty) (DiagnosticLine.short (some fs) cwd true ds ++ "\n")
  | json =>
    DiagnosticDocument.render (some fs) cwd
      { positions := true, paths := .auto, limit := 0, notes := true } ds

end ReportFormat
end Tarjuman
