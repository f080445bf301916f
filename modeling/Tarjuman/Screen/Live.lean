/-
# The live editor

A buffer on the left and, on the right, the script made of it with what was
reported.  Every change of the buffer is transpiled at once.  The editor is a
value; `Live.step` answers one event, and saving is its only effect on the disk.
-/

import Tarjuman.Build.Job
import Tarjuman.Diagnostic.Line
import Tarjuman.Screen.Block
import Tarjuman.Screen.Buffer
import Tarjuman.Screen.Wrap

namespace Tarjuman

/-- A live editor. -/
structure Live where
  /-- Where the buffer is saved; empty for nowhere. -/
  path : Text
  options : BuildOptions
  buffer : Buffer
  /-- Results for earlier contents. -/
  memo : Memo
  /-- What the pane on the right holds. -/
  content : Text := []
  /-- What became of the last attempt to save. -/
  status : Text := []
  width : Int := 100
  height : Int := 24

namespace Live

/-- What happens to the editor. -/
inductive Event where
  | typed (s : Text)
  | enter
  | backspace
  | save
  | quit
  | resize (width height : Int)
deriving DecidableEq, Repr

/-- The event leaves the editor. -/
def Event.quits : Event → Bool
  | .quit => true
  | _ => false

/-- The name under which the buffer is transpiled. -/
def name (l : Live) : Text := if l.path.isEmpty then "buffer.lugha" else l.path

/-- Transpile the buffer. -/
def compute (l : Live) (cwd : Text) : Live :=
  let (fs, o, s) := transpileSource l.name l.buffer.text l.options none { memo := some l.memo }
  let reports := o.bag.toList
  { l with
    memo := s.memo.getD l.memo
    content := o.output ++ Text.when (!reports.isEmpty)
      ("\n\n" ++ DiagnosticLine.short (some fs) cwd false reports) }

/-- An editor with an initial text. -/
def new (cwd path initial : Text) (o : BuildOptions) : Live :=
  ({ path, options := o, buffer := .ofText initial, memo := .new 0 : Live }).compute cwd

/-- The editor with another buffer. -/
def edit (l : Live) (cwd : Text) (b : Buffer) : Live :=
  if b = l.buffer then l else ({ l with buffer := b }).compute cwd

/-- Save the buffer. -/
def save (l : Live) (d : Disk) : Live × Disk :=
  if l.path.isEmpty then ({ l with status := "no file to save to" }, d)
  else
    match d.write l.path l.buffer.text with
    | .ok d => ({ l with status := "saved " ++ l.path }, d)
    | .error f => ({ l with status := "save failed: write " ++ l.path ++ ": " ++ f.message }, d)

/-- The editor and the disk after an event. -/
def step (l : Live) (d : Disk) : Event → Live × Disk
  | .typed s => (l.edit d.cwd (l.buffer.insert s), d)
  | .enter => (l.edit d.cwd l.buffer.newLine, d)
  | .backspace => (l.edit d.cwd l.buffer.eraseLast, d)
  | .save => l.save d
  | .quit => (l, d)
  | .resize width height => ({ l with width, height }, d)

/-- Cells inside a pane. -/
def paneWidth (l : Live) : Nat := (max (l.width.tdiv 2 - 4) 10).toNat

/-- Lines inside a pane, below its title. -/
def paneHeight (l : Live) : Nat := (max (l.height - 4) 3).toNat

/-- The lines of the script pane, title included. -/
def rows (l : Live) : Nat := l.paneHeight + 1

/-- Without blanks at the end. -/
def trimEnd (s : Text) : Text := (s.reverse.dropWhile (· == 0x20)).reverse

/-- The lines of the script pane, without blanks at their ends and without empty
lines at the end. -/
def pane (l : Live) : List Text :=
  let lines := Text.splitOn 0x0A (Text.spread l.content)
  let shown := ((lines.take l.paneHeight).flatMap (Text.wrap l.paneWidth)).take l.paneHeight
  let title : Text := "JavaScript"
  let all := (title :: shown).map fun s => trimEnd (" " ++ s)
  (all.reverse.dropWhile List.isEmpty).reverse

/-- The line below the panes. -/
def help (l : Live) : Text :=
  Text.when (!l.status.isEmpty) (l.status ++ "  ") ++ "ctrl+s save • esc quit"

end Live
end Tarjuman
