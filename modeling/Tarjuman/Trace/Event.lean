/-
# Events of a trace

An event is written as one line for readers or as a JSON object in a line.
-/

import Tarjuman.Text.Json
import Tarjuman.Time.Moment
import Tarjuman.Trace.Level

namespace Tarjuman

/-- One event. -/
structure TraceEvent where
  time : Moment
  /-- Its number among all events. -/
  seq : Nat := 0
  kind : TraceKind
  scope : TraceScope
  /-- The span it begins or ends; zero for points. -/
  span : Nat := 0
  /-- The span it belongs to; zero for none. -/
  parent : Nat := 0
  /-- The worker that made it; zero if that is not known. -/
  worker : Nat := 0
  name : Text
  detail : Text := []
  /-- Named values, each name once. -/
  extra : List (Text × Text) := []
deriving Repr

namespace TraceEvent

/-- The named values in the order of their names. -/
def sortedExtra (e : TraceEvent) : List (Text × Text) :=
  e.extra.mergeSort fun a b => Text.order a.1 b.1 != .gt

/-- The event for readers: `15:04:05.000000 #1     → name (detail) {k=v, k=v}`.
What belongs to a span is moved in by two blanks. -/
def line (e : TraceEvent) : Text :=
  let extra := e.sortedExtra.map fun (k, v) => k ++ "=" ++ v
  e.time.clock ++ " #" ++ Text.padRight 5 (Text.ofNat e.seq) ++ " " ++
    Text.when (0 < e.parent) (Text.spaces 2) ++ e.kind.mark ++ e.name ++
    Text.when (!e.detail.isEmpty) (" (" ++ e.detail ++ ")") ++
    Text.when (!extra.isEmpty) (" \x7b" ++ Text.join ", " extra ++ "\x7d") ++ "\n"

/-- The event as a JSON object. -/
def json (e : TraceEvent) : Json :=
  let extra := e.sortedExtra.map fun (k, v) => (k, Json.string v)
  Json.record
    [Json.text "time" e.time.render, Json.count "seq" e.seq, Json.text "kind" e.kind.name,
     Json.text "scope" e.scope.name, Json.countUnlessZero "span_id" e.span,
     Json.countUnlessZero "parent_id" e.parent, Json.countUnlessZero "gid" e.worker,
     Json.text "name" e.name, Json.textUnlessEmpty "detail" e.detail,
     if extra.isEmpty then [] else Json.field "extra" (.object extra)]

/-- The event with a line feed at its end. -/
def render (e : TraceEvent) (format : TraceFormat) : Text :=
  if format = .json then e.json.compact ++ "\n" else e.line

end TraceEvent
end Tarjuman
