/-
# The progress screen

A list of files with the state of each, a spinner and a bar.  The screen is a
value: events change it, and `Progress.view` is what a terminal shows.

A row belongs to a path.  Where a path is listed more than once, its events go to
the last row; an event for a path that is not listed changes nothing.
-/

import Tarjuman.Build.Folder
import Tarjuman.Screen.Block

namespace Tarjuman

namespace Progress

/-- The state of a row. -/
inductive RowState where
  | queued
  | working
  | done
  | cached
  | failed
deriving DecidableEq, Repr

/-- The word for a state. -/
def RowState.label : RowState → Text
  | queued => "queued"
  | working => "working"
  | done => "done"
  | cached => "cached"
  | failed => "error"

/-- The line of one file. -/
structure Row where
  path : Text
  state : RowState := .queued
  errors : Nat := 0
  warnings : Nat := 0
  elapsed : Duration := 0
deriving DecidableEq, Repr

namespace Row

/-- The row after an event of its file. -/
def apply (r : Row) (e : FileEvent) : Row :=
  if !e.done then { r with state := .working }
  else
    { r with
      state := if 0 < e.errors then .failed else if e.cached then .cached else .done
      errors := e.errors, warnings := e.warnings, elapsed := e.elapsed }

/-- What is told of a file besides its state: counts that are not zero and, unless
it came from a cache, the time it took. -/
def note (r : Row) : Text :=
  let parts : List Text :=
    [Text.when (0 < r.errors) (Text.ofNat r.errors ++ " errors"),
     Text.when (0 < r.warnings) (Text.ofNat r.warnings ++ " warnings"),
     Text.when (0 < r.elapsed && r.state ≠ .cached) r.elapsed.render]
  Text.join ", " (parts.filter (!·.isEmpty))

/-- Cells for the label. -/
def labelWidth : Nat := 12

/-- The row with its path in `w` cells. -/
def render (w : Nat) (r : Row) : Text :=
  "  " ++ Text.padLeft labelWidth r.state.label ++ " " ++ Text.truncate r.path w "..." ++
    Text.when (!r.note.isEmpty) (" " ++ r.note) ++ "\n"

end Row

/-- The pictures of the spinner, each with a blank after it. -/
def frames : List Text := ["⣾ ", "⣽ ", "⣻ ", "⢿ ", "⡿ ", "⣟ ", "⣯ ", "⣷ "]

end Progress

/-- What the progress screen shows. -/
structure Progress where
  title : Text
  rows : List Progress.Row
  /-- The number of events that ended a file. -/
  finished : Nat := 0
  /-- The number of those with errors. -/
  failed : Nat := 0
  /-- The width of the terminal. -/
  width : Int := 80
  /-- The picture of the spinner. -/
  frame : Nat := 0
  done : Bool := false
deriving Repr

namespace Progress

/-- What happens to the screen. -/
inductive Event where
  | file (e : FileEvent)
  /-- No more files come. -/
  | closed
  | interrupt
  /-- Any other key. -/
  | key
  | tick
  | resize (width : Int)
deriving DecidableEq, Repr

/-- The screen before any event: all files wait. -/
def new (title : Text) (paths : List Text) : Progress :=
  { title, rows := paths.map fun p => { path := p } }

/-- Change the last element that satisfies `p`. -/
def modifyLast {α : Type} (p : α → Bool) (f : α → α) (l : List α) : List α :=
  match l.reverse.findIdx? p with
  | some i => (l.reverse.modify i f).reverse
  | none => l

/-- The screen after an event of a file. -/
def apply (p : Progress) (e : FileEvent) : Progress :=
  if p.rows.any (·.path = e.path) then
    { p with
      rows := modifyLast (·.path = e.path) (·.apply e) p.rows
      finished := if e.done then p.finished + 1 else p.finished
      failed := if e.done ∧ 0 < e.errors then p.failed + 1 else p.failed }
  else p

/-- The screen after an event. -/
def step (p : Progress) : Event → Progress
  | .file e => p.apply e
  | .closed => { p with done := true }
  | .interrupt | .key => p
  | .tick => if p.done then p else { p with frame := (p.frame + 1) % frames.length }
  | .resize w => if 0 < w then { p with width := w } else p

/-- The event leaves the screen. -/
def Event.quits : Event → Bool
  | .closed | .interrupt => true
  | _ => false

/-- What stands before the title. -/
def lead (p : Progress) : Text := if p.done then "done:" else frames.getD p.frame []

/-- Cells for a path. -/
def pathWidth (p : Progress) : Nat := (max (p.width - Row.labelWidth - 4) 20).toNat

/-- Cells for the bar without its percentage. -/
def barWidth (p : Progress) : Nat := (p.width - 4 - 5).toNat

/-- The bar: empty until the end, then full. -/
def bar (p : Progress) : Text :=
  if p.done then Text.times p.barWidth "█" ++ " 100%" else Text.times p.barWidth "░" ++ "   0%"

/-- The head line: what is done, and how many of the files are finished. -/
def heading (p : Progress) : Text :=
  Text.block (p.lead ++ " " ++ p.title ++ " (" ++ Text.ofNat p.finished ++ "/" ++
    Text.ofNat p.rows.length ++ ")")

/-- The screen as text; empty without files. -/
def view (p : Progress) : Text :=
  if p.rows.isEmpty then []
  else
    p.heading ++ "\n\n" ++ p.rows.flatMap (Row.render p.pathWidth) ++ "\n" ++ p.bar ++
      Text.when (0 < p.failed) ("  " ++ Text.ofNat p.failed ++ " failed") ++ "\n"

end Progress
end Tarjuman
