/-
# Tracers

A tracer numbers the events that its level admits and writes them at once.  A
write that fails is remembered and changes nothing else.

A span is a pair of events, at its beginning and at its end.  A span that was not
admitted is inert (`none`): it has number zero and its end writes nothing.
-/

import Tarjuman.Trace.Event

namespace Tarjuman

/-- A tracer and what it wrote so far. -/
structure Tracer where
  level : TraceLevel
  format : TraceFormat := .text
  /-- The moment that events carry. -/
  now : Moment := ⟨0, 0, 0⟩
  /-- The number of events so far. -/
  events : Nat := 0
  /-- The number of spans so far. -/
  spans : Nat := 0
  /-- How many more writes succeed, if not all of them. -/
  room : Option Nat := none
  /-- A write has failed. -/
  failed : Bool := false
  output : Text := []

/-- A span that was begun. -/
structure TraceSpan where
  number : Nat
  parent : Nat
  scope : TraceScope
  name : Text
  /-- What its end says besides. -/
  extra : List (Text × Text) := []
deriving Repr

namespace TraceSpan

/-- The number by which a span is named as a parent. -/
def numberOf : Option TraceSpan → Nat
  | some s => s.number
  | none => 0

/-- A named value for the end of the span; the last one of a name counts. -/
def withExtra (s : TraceSpan) (name value : Text) : TraceSpan :=
  { s with extra := s.extra.filter (·.1 ≠ name) ++ [(name, value)] }

end TraceSpan

namespace Tracer

/-- A tracer that writes nothing. -/
def silent : Tracer := { level := .off }

/-- The tracer may write something. -/
def isEnabled (t : Tracer) : Bool := 0 < t.level.number

/-- Write an event that was admitted and numbered. -/
def write (t : Tracer) (e : TraceEvent) : Tracer :=
  match t.room with
  | some 0 => { t with failed := true }
  | some (n + 1) => { t with room := some n, output := t.output ++ e.render t.format }
  | none => { t with output := t.output ++ e.render t.format }

/-- Number an event and write it, if the level admits it. -/
def emit (t : Tracer) (e : TraceEvent) : Tracer :=
  if t.level.admits e.kind e.scope then
    { t with events := t.events + 1 }.write { e with time := t.now, seq := t.events + 1 }
  else t

/-- Begin a span. -/
def spanBegin (t : Tracer) (scope : TraceScope) (name : Text) (parent : Nat) :
    Option TraceSpan × Tracer :=
  if t.level.admits .spanBegin scope then
    let span := t.spans + 1
    (some ⟨span, parent, scope, name, []⟩,
     { t with spans := span }.emit { time := t.now, kind := .spanBegin, scope, span, parent, name })
  else (none, t)

/-- End a span. -/
def spanEnd (t : Tracer) (s : Option TraceSpan) (detail : Text) : Tracer :=
  match s with
  | some s =>
    if t.isEnabled then
      t.emit
        { time := t.now, kind := .spanEnd, scope := s.scope, span := s.number, parent := s.parent
          name := s.name, detail, extra := s.extra }
    else t
  | none => t

/-- A single event. -/
def instant (t : Tracer) (kind : TraceKind) (scope : TraceScope) (name detail : Text)
    (parent : Nat) : Tracer :=
  t.emit { time := t.now, kind, scope, parent, name, detail }

/-- A failure. -/
def error (t : Tracer) (scope : TraceScope) (name detail : Text) (parent : Nat) : Tracer :=
  t.instant .error scope name detail parent

end Tracer
end Tarjuman
