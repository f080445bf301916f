/-
# Phases and the time they take
-/

import Tarjuman.Text.Json
import Tarjuman.Text.Utf8
import Tarjuman.Time.Duration

namespace Tarjuman

/-- A phase of a run. -/
structure Phase where
  name : Text
  duration : Duration := 0
  note : Text := []
  /-- The phase is over. -/
  finished : Bool := false
deriving DecidableEq, Repr

/-- Phases in the order in which they began. -/
structure Timer where
  phases : List Phase := []
deriving DecidableEq, Repr

namespace Timer

/-- Begin a phase, which gets the next index. -/
def start (t : Timer) (name : Text) : Nat × Timer :=
  (t.phases.length, ⟨t.phases ++ [({ name := name } : Phase)]⟩)

/-- End a phase.  A phase that is over stays as it is. -/
def stop (t : Timer) (index : Nat) (elapsed : Duration) (note : Text) : Timer :=
  ⟨t.phases.modify index fun p =>
    if p.finished then p else { p with duration := elapsed, note, finished := true }⟩

/-- A phase that was measured elsewhere. -/
def add (t : Timer) (name : Text) (duration : Duration) (note : Text) : Timer :=
  ⟨t.phases ++ [{ name, duration, note, finished := true }]⟩

/-- The time of all phases together. -/
def total (t : Timer) : Duration :=
  t.phases.foldl (fun sum p => Duration.wrap (sum + p.duration)) 0

/-- A name of up to twenty characters and a time in columns. -/
def row (name : Text) (d : Duration) : Text :=
  "  " ++ name ++ Text.spaces (20 - Utf8.count name) ++ " " ++ Text.padLeft 7 (d.millis.fixed 2) ++ " ms"

/-- A phase as a line of the table. -/
def phaseRow (p : Phase) : Text :=
  row p.name p.duration ++ Text.when (!p.note.isEmpty) ("  // " ++ p.note) ++ "\n"

/-- The phases as a table. -/
def summary (t : Timer) : Text :=
  "timings:\n" ++ t.phases.flatMap phaseRow ++ row "total" t.total ++ "\n"

/-- The phases as JSON; null if there are none. -/
def phasesJson (t : Timer) : Json :=
  if t.phases.isEmpty then .null
  else
    .array (t.phases.map fun p =>
      Json.record
        [Json.text "name" p.name, Json.field "duration_ms" (.number p.duration.millis.render),
         Json.textUnlessEmpty "note" p.note])

end Timer
end Tarjuman
