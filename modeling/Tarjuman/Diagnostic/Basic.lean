/-
# Diagnostics

A diagnostic is a finding about a source text: how bad it is, which finding it
is, where it is and what to say about it.  Diagnostics never stop a run; they
travel beside its output.

| codes | prefix | found by |
|-------|--------|----------|
| 1000–1999 | `LEX` | lexer |
| 2000–2999 | `SYN` | transpiler |
| 3000–3999 | `TRN` | transpiler |
| 4000–4999 | `IO` | driver |
| 5000–5999 | none | driver |
| 6000–6999 | `OBS` | driver |
-/

import Tarjuman.Source.Span

namespace Tarjuman

/-- How bad a finding is; higher is worse. -/
structure Severity where
  level : UInt8
deriving DecidableEq, Repr, Inhabited

namespace Severity

def info : Severity := ⟨0⟩
def warning : Severity := ⟨1⟩
def error : Severity := ⟨2⟩

/-- One of the three levels in use. -/
def isKnown (s : Severity) : Bool := s.level < 3

/-- The name in capitals. -/
def name (s : Severity) : Text :=
  if s = info then "INFO" else if s = warning then "WARNING"
  else if s = error then "ERROR" else "UNKNOWN"

/-- The name in small letters, for the one-line forms. -/
def label (s : Severity) : Text :=
  if s = info then "info" else if s = warning then "warning"
  else if s = error then "error" else "unknown"

/-- An error or worse. -/
def isError (s : Severity) : Bool := error.level ≤ s.level

/-- A warning or worse. -/
def isWarning (s : Severity) : Bool := warning.level ≤ s.level

end Severity

/-- The part of the program that makes a finding. -/
inductive Origin where
  | unknown
  | lexer
  | transpiler
  | driver
deriving DecidableEq, Repr, Inhabited

namespace Origin

/-- The origin with a given number. -/
def ofNumber? : Nat → Option Origin
  | 0 => some unknown
  | 1 => some lexer
  | 2 => some transpiler
  | 3 => some driver
  | _ => none

/-- The name of the origin. -/
def name : Origin → Text
  | unknown => "unknown"
  | lexer => "lexer"
  | transpiler => "transpiler"
  | driver => "driver"

end Origin

/-- Which finding it is. -/
structure Code where
  number : UInt16
deriving DecidableEq, Repr, Inhabited

namespace Code

def openString : Code := ⟨1001⟩
def openRawLiteral : Code := ⟨1002⟩
def unknownCharacter : Code := ⟨1003⟩
def invalidStatement : Code := ⟨2001⟩
def unexpectedToken : Code := ⟨2002⟩
def expectIdentifier : Code := ⟨2003⟩
def expectOperand : Code := ⟨2004⟩
def unmatchedEnd : Code := ⟨2005⟩
def unclosedBlock : Code := ⟨2006⟩
def elseWithoutIf : Code := ⟨2007⟩
def unboundIdentifier : Code := ⟨3001⟩
def redeclared : Code := ⟨3002⟩
def renameCollision : Code := ⟨3003⟩
def unsupported : Code := ⟨3004⟩
def loadFailure : Code := ⟨4001⟩
def cacheFailure : Code := ⟨4002⟩
def timings : Code := ⟨6001⟩

/-- The titles of the codes in use. -/
def titles : List (Nat × String) :=
  [(0, "Unknown error"),
   (1000, "Lexical information"),
   (1001, "Unterminated string"),
   (1002, "Unterminated raw literal"),
   (1003, "Unknown character"),
   (2000, "Syntax information"),
   (2001, "Invalid start to statement"),
   (2002, "Unexpected token"),
   (2003, "Expected identifier"),
   (2004, "Expected identifier or number"),
   (2005, "End without an open block"),
   (2006, "Block is not closed"),
   (2007, "Else without if"),
   (3000, "Transpiler information"),
   (3001, "Unbound identifier"),
   (3002, "Identifier redeclared"),
   (3003, "Renamed identifiers collide"),
   (3004, "Unsupported statement"),
   (4001, "I/O load file error"),
   (4002, "I/O cache error"),
   (6000, "Observability information"),
   (6001, "Pipeline timings")]

/-- The code as shown: the prefix of its thousand and its number. -/
def id (c : Code) : Text :=
  let n := Text.ofNatPadded 4 c.number.toNat
  match c.number.toNat / 1000 with
  | 1 => "LEX" ++ n
  | 2 => "SYN" ++ n
  | 3 => "TRN" ++ n
  | 4 => "IO" ++ n
  | 6 => "OBS" ++ n
  | _ => "E0000"

/-- What the code means; codes not in use are unknown errors. -/
def title (c : Code) : Text :=
  match titles.lookup c.number.toNat with
  | some t => t
  | none => "Unknown error"

/-- The part of the program that a code belongs to. -/
def origin (c : Code) : Origin :=
  match c.number.toNat / 1000 with
  | 1 => .lexer
  | 2 | 3 => .transpiler
  | 4 | 5 | 6 => .driver
  | _ => .unknown

/-- The code with its title. -/
def render (c : Code) : Text := "[" ++ c.id ++ "]: " ++ c.title

end Code

/-- A remark on a diagnostic, at a place of its own. -/
structure Note where
  span : Span
  message : Text
deriving DecidableEq, Repr, Inhabited

/-- A finding. -/
structure Diagnostic where
  severity : Severity
  code : Code
  span : Span
  message : Text
  notes : List Note := []
deriving DecidableEq, Repr, Inhabited

namespace Diagnostic

/-- A finding that makes the run fail. -/
def error (code : Code) (span : Span) (message : Text) : Diagnostic :=
  { severity := .error, code, span, message }

/-- A finding that does not make the run fail. -/
def warning (code : Code) (span : Span) (message : Text) : Diagnostic :=
  { severity := .warning, code, span, message }

/-- The part of the program that made the finding. -/
def origin (d : Diagnostic) : Origin := d.code.origin

/-- One more note at the end. -/
def withNote (d : Diagnostic) (span : Span) (message : Text) : Diagnostic :=
  { d with notes := d.notes ++ [⟨span, message⟩] }

/-- The finding makes the run fail. -/
def isError (d : Diagnostic) : Bool := d.severity.isError

/-- Two findings that say the same about the same place; notes do not count. -/
def same (a b : Diagnostic) : Bool :=
  a.code = b.code ∧ a.severity = b.severity ∧ a.span = b.span ∧ a.message = b.message

/-- The first of several findings that say the same, in the given order;
`seen` are those already kept. -/
def distinctFrom (seen : List Diagnostic) : List Diagnostic → List Diagnostic
  | [] => []
  | d :: r => if seen.any (same d) then distinctFrom seen r else d :: distinctFrom (d :: seen) r

/-- The first of several findings that say the same, in the given order. -/
def distinct (ds : List Diagnostic) : List Diagnostic := distinctFrom [] ds

end Diagnostic
end Tarjuman
