/-
# Grapheme clusters

A text cut into what a reader takes for single characters, and the cells these
take up on a terminal.  A cluster is as wide as the first of its characters that
takes up any cell.

Bytes that decode to nothing form clusters of their own, as many at a time as go
together by their lead byte; where a sequence is cut off by the end of the text,
the rest of the text is one cluster with what comes before it.
-/

import Tarjuman.Text.Utf8
import Tarjuman.Unicode.CellWidth
import Tarjuman.Unicode.ClusterClass

namespace Tarjuman
namespace Unicode

/-- How many of the bytes continue a sequence, `n` at most. -/
def tailCount : (n : Nat) → Text → Nat
  | n + 1, b :: r => if Utf8.isTail b then 1 + tailCount n r else 0
  | _, _ => 0

/-- The class and the number of bytes of what stands at the head of a text, all
of them for a sequence that is cut off. -/
def headClass (s : Text) : ClusterClass × Nat :=
  match s with
  | [] => (.other, 0)
  | b :: r =>
    let n := Utf8.announced b
    if s.length < n then (.other, s.length)
    else if tailCount (n - 1) r < n - 1 then (.other, 1 + tailCount (n - 1) r)
    else
      match Utf8.decode? s with
      | some c => (clusterClass c.toNat, n)
      | none => (.other, n)

/-- What the boundary rules remember of a cluster: the class before the boundary,
the last two classes that do not extend, and whether the number of regional
indicators so far is odd. -/
structure ClusterState where
  last : ClusterClass
  base : ClusterClass
  beforeBase : ClusterClass := .other
  oddRegionals : Bool

/-- The state after the first character of a cluster. -/
def ClusterState.first (c : ClusterClass) : ClusterState :=
  { last := c, base := if c = .extend then .other else c, oddRegionals := c = .regional }

/-- The state after one more character. -/
def ClusterState.next (st : ClusterState) (c : ClusterClass) : ClusterState :=
  let oddRegionals := c = .regional && !(st.last = .regional && st.oddRegionals)
  if c = .extend then { st with last := c, oddRegionals }
  else { last := c, base := c, beforeBase := st.base, oddRegionals }

/-- A control character or a line end. -/
def ClusterClass.isControl (c : ClusterClass) : Bool :=
  c = .control || c = .carriageReturn || c = .lineFeed

/-- The character goes on with the cluster. -/
def ClusterState.joins (st : ClusterState) (c : ClusterClass) : Bool :=
  if st.last = .carriageReturn && c = .lineFeed then true
  else if st.last.isControl || c.isControl then false
  else if st.last = .leading && (c = .leading || c = .vowel || c = .syllableLV || c = .syllableLVT)
  then true
  else if (st.last = .syllableLV || st.last = .vowel) && (c = .vowel || c = .trailing) then true
  else if (st.last = .syllableLVT || st.last = .trailing) && c = .trailing then true
  else if c = .extend || c = .joiner || c = .spacing then true
  else if st.last = .prepend then true
  else if c = .pictograph && st.last = .joiner && st.beforeBase = .pictograph then true
  else c = .regional && st.last = .regional && st.oddRegionals

/-- The bytes of a cluster that has begun, and the rest of the text.  `fuel`
bounds the number of characters. -/
def clusterRest : (fuel : Nat) → ClusterState → Text → Text × Text
  | 0, _, s => ([], s)
  | fuel + 1, st, s =>
    match s with
    | [] => ([], [])
    | b :: _ =>
      let (c, n) := headClass s
      if s.length < Utf8.announced b then (s, [])
      else if st.joins c then
        let (more, rest) := clusterRest fuel (st.next c) (s.drop n)
        (s.take n ++ more, rest)
      else ([], s)

/-- The clusters of a text; `fuel` bounds their number. -/
def clustersFrom : (fuel : Nat) → Text → List Text
  | 0, _ => []
  | fuel + 1, s =>
    if s.isEmpty then []
    else
      let (c, n) := headClass s
      let (more, rest) := clusterRest s.length (.first c) (s.drop n)
      (s.take n ++ more) :: clustersFrom fuel rest

/-- The grapheme clusters of a text. -/
def clusters (s : Text) : List Text := clustersFrom s.length s

/-- The cells of a cluster. -/
def clusterCells (s : Text) : Nat :=
  (((Utf8.chars s).map (cells ·.toNat)).find? (· ≠ 0)).getD 0

end Unicode

namespace Text

/-- The number of terminal cells a text takes up. -/
def cells (s : Text) : Nat := ((Unicode.clusters s).map Unicode.clusterCells).foldr (· + ·) 0

/-- The clusters that fit into `w` cells. -/
def fitting (w : Int) : List Text → Text
  | [] => []
  | c :: r =>
    let n : Int := Unicode.clusterCells c
    if w < n then [] else c ++ fitting (w - n) r

/-- The text cut to `w` cells, with `tail` at the end if anything was cut off. -/
def truncate (s : Text) (w : Nat) (tail : Text) : Text :=
  if cells s ≤ w then s
  else fitting (w - cells tail : Int) (Unicode.clusters s) ++ tail

end Text
end Tarjuman
