/-
# Breaking lines to a width

A line is broken at blanks, which disappear at the break, and behind hyphens.  A
word that is wider than a line is cut.  Blanks at the end stay as long as they fit.
-/

import Tarjuman.Unicode.Cluster

namespace Tarjuman

/-- A line that is being broken: the lines that are complete, the line that grows,
and the blanks and the word that are not yet part of it. -/
structure Wrap where
  lines : List Text := []
  line : Text := []
  width : Nat := 0
  blank : Text := []
  word : Text := []
  wordWidth : Nat := 0
deriving Repr

namespace Wrap

/-- Put the blanks on the line. -/
def takeBlank (w : Wrap) : Wrap :=
  { w with line := w.line ++ w.blank, width := w.width + w.blank.length, blank := [] }

/-- Put the word on the line, behind the blanks. -/
def takeWord (w : Wrap) : Wrap :=
  if w.word.isEmpty then w
  else
    let w := w.takeBlank
    { w with line := w.line ++ w.word, width := w.width + w.wordWidth, word := [], wordWidth := 0 }

/-- End the line and drop the blanks. -/
def breakLine (w : Wrap) : Wrap :=
  { w with lines := w.lines ++ [w.line], line := [], width := 0, blank := [] }

/-- End the line if the word does not fit on it. -/
def breakBefore (limit : Nat) (w : Wrap) : Wrap :=
  if limit < w.width + w.wordWidth + w.blank.length then w.breakLine else w

/-- Add a unit of some cells to the word. -/
def grow (w : Wrap) (u : Text) (cells : Nat) : Wrap :=
  { w with word := w.word ++ u, wordWidth := w.wordWidth + cells }

/-- Add a blank. -/
def addBlank (w : Wrap) (u : Text) : Wrap :=
  let w := w.takeWord
  { w with blank := w.blank ++ u }

/-- Add a hyphen, after which a line may end. -/
def addHyphen (limit : Nat) (w : Wrap) (u : Text) : Wrap :=
  let w := w.takeBlank
  if limit ≤ w.width + w.wordWidth then w.grow u 1
  else
    let w := w.takeWord
    { w with line := w.line ++ u, width := w.width + 1 }

/-- Add an ASCII character of a word. -/
def addAscii (limit : Nat) (w : Wrap) (u : Text) : Wrap :=
  let w := w.grow u 1
  (if w.wordWidth = limit then w.takeWord else w).breakBefore limit

/-- Add a cluster of a word. -/
def addCluster (limit : Nat) (w : Wrap) (u : Text) : Wrap :=
  let cells := Unicode.clusterCells u
  ((if limit < w.wordWidth + cells then w.takeWord else w).grow u cells).breakBefore limit

/-- The unit is a blank at which a line may end. -/
def isBlank (u : Text) : Bool :=
  match Utf8.decode? u with
  | some c => Utf8.isBlank c && c.toNat ≠ 0xA0
  | none => false

/-- Add one unit. -/
def add (limit : Nat) (w : Wrap) (u : Text) : Wrap :=
  if isBlank u then w.addBlank u
  else if u = "-" then w.addHyphen limit u
  else if u.length = 1 then w.addAscii limit u
  else w.addCluster limit u

/-- The units of a line: single ASCII characters and clusters; `fuel` bounds their
number. -/
def unitsFrom : (fuel : Nat) → Text → List Text
  | 0, _ => []
  | _, [] => []
  | fuel + 1, b :: r =>
    if b < 0x80 then [b] :: unitsFrom fuel r
    else
      let (c, n) := Unicode.headClass (b :: r)
      let (more, rest) := Unicode.clusterRest r.length (.first c) ((b :: r).drop n)
      ((b :: r).take n ++ more) :: unitsFrom fuel rest

/-- All lines, with the blanks at the end if they fit. -/
def finish (limit : Nat) (w : Wrap) : List Text :=
  let fits := w.wordWidth = 0 && w.width + w.blank.length ≤ limit
  let w := if fits then w.takeBlank else if w.wordWidth = 0 then { w with blank := [] } else w
  let w := w.takeWord
  w.lines ++ [w.line]

end Wrap

namespace Text

/-- The lines into which a line is broken for a width, none wider. -/
def wrap (limit : Nat) (s : Text) : List Text :=
  (((Wrap.unitsFrom s.length s).foldl (Wrap.add limit) {}).finish limit).map
    fun l => Text.truncate l limit []

end Text
end Tarjuman
