/-
# What is traced

Events have a kind and a scope, and a tracer has a level that says which of them
it writes.  Errors are written at every level but `off`.
-/

import Tarjuman.Text.Quoted
import Tarjuman.Text.Utf8

namespace Tarjuman

/-- What an event marks. -/
structure TraceKind where
  number : UInt8
deriving DecidableEq, Repr, Inhabited

namespace TraceKind

def spanBegin : TraceKind := ⟨1⟩
def spanEnd : TraceKind := ⟨2⟩
def point : TraceKind := ⟨3⟩
def error : TraceKind := ⟨4⟩

/-- The name of the kind. -/
def name (k : TraceKind) : Text :=
  match k.number.toNat with
  | 1 => "begin"
  | 2 => "end"
  | 3 => "point"
  | 4 => "error"
  | _ => "unknown"

/-- The sign of the kind in front of an event's name. -/
def mark (k : TraceKind) : Text :=
  match k.number.toNat with
  | 1 => "→ "
  | 2 => "← "
  | 3 => "• "
  | 4 => "! "
  | _ => []

end TraceKind

/-- How much an event is about; a smaller number is about more. -/
structure TraceScope where
  number : UInt8
deriving DecidableEq, Repr, Inhabited

namespace TraceScope

/-- A whole command. -/
def driver : TraceScope := ⟨1⟩
/-- One pass over a file. -/
def pass : TraceScope := ⟨2⟩
/-- One file. -/
def file : TraceScope := ⟨3⟩

/-- The name of the scope. -/
def name (s : TraceScope) : Text :=
  match s.number.toNat with
  | 1 => "driver"
  | 2 => "pass"
  | 3 => "file"
  | _ => "unknown"

end TraceScope

/-- How much a tracer writes. -/
structure TraceLevel where
  number : UInt8
deriving DecidableEq, Repr, Inhabited

namespace TraceLevel

def off : TraceLevel := ⟨0⟩
def phase : TraceLevel := ⟨2⟩

/-- The names of the levels in use. -/
def names : List Text := ["off", "error", "phase", "detail", "debug"]

/-- The name of the level. -/
def name (l : TraceLevel) : Text := names.getD l.number.toNat "unknown"

/-- The level with a name; case and blanks around it do not matter. -/
def ofName? (s : Text) : Option TraceLevel :=
  (names.findIdx? (· == (Text.trim s).lower)).map fun i => ⟨UInt8.ofNat i⟩

/-- What is said of a name that is none. -/
def badName (s : Text) : Text :=
  "invalid trace level: " ++ Text.quoted s ++ " (expected: " ++ Text.join "|" names ++ ")"

/-- The greatest scope that is written; zero for none. -/
def widest (l : TraceLevel) : Nat :=
  match l.number.toNat with
  | 2 => 2
  | 3 => 3
  | 4 => 255
  | _ => 0

/-- An event of this kind and scope is written. -/
def admits (l : TraceLevel) (kind : TraceKind) (scope : TraceScope) : Bool :=
  l ≠ off && l.number.toNat < names.length &&
    (kind = .error || scope.number.toNat ≤ l.widest)

end TraceLevel

/-- How events are written. -/
inductive TraceFormat where
  /-- By the name of the output file. -/
  | auto
  /-- One line for readers. -/
  | text
  /-- One JSON object in a line. -/
  | json
deriving DecidableEq, Repr

namespace TraceFormat

/-- The format with a name; case and blanks around it do not matter. -/
def ofName? (s : Text) : Option TraceFormat :=
  let s := (Text.trim s).lower
  if s = [] ∨ s = "auto" then some auto
  else if s = "text" then some text
  else if s = "ndjson" ∨ s = "jsonl" ∨ s = "json" then some json
  else none

/-- What is said of a name that is none. -/
def badName (s : Text) : Text :=
  "invalid trace format: " ++ Text.quoted s ++ " (expected: auto|text|ndjson)"

end TraceFormat
end Tarjuman
