/-
# Paths as text

What can be said of a path without looking at any file.  A path is clean when it
holds no empty, `.` or inner `..` component; `clean` gives the shortest path with
the same meaning.
-/

import Tarjuman.Text.Basic

namespace Tarjuman
namespace Path

/-- The byte between components. -/
def slash : UInt8 := Text.byte '/'

/-- The path starts at the root. -/
def isAbsolute (p : Text) : Bool := p.head? == some slash

/-- The components of a path, without empty ones. -/
def components (p : Text) : List Text := (Text.splitOn slash p).filter (!·.isEmpty)

/-- One more component after cleaned ones, which are in reverse: `.` changes
nothing and `..` takes the last one back, unless there is none to take back. -/
def cleanStep (rooted : Bool) (done : List Text) (c : Text) : List Text :=
  if c = "." then done
  else if c = ".." then
    match done with
    | [] => if rooted then [] else [c]
    | last :: r => if last = ".." then c :: done else r
  else c :: done

/-- The components of a path after cleaning. -/
def cleanComponents (p : Text) : List Text :=
  ((components p).foldl (cleanStep (isAbsolute p)) []).reverse

/-- The path with these components. -/
def ofComponents (rooted : Bool) (cs : List Text) : Text :=
  if rooted then slash :: Text.join "/" cs
  else if cs.isEmpty then "."
  else Text.join "/" cs

/-- The shortest path with the same meaning. -/
def clean (p : Text) : Text := ofComponents (isAbsolute p) (cleanComponents p)

/-- Paths put together and cleaned; empty ones at the front are left out. -/
def join (parts : List Text) : Text :=
  match parts.dropWhile (·.isEmpty) with
  | [] => []
  | parts => clean (Text.join "/" parts)

/-- The last component; `.` for an empty path and `/` for the root. -/
def base (p : Text) : Text :=
  if p.isEmpty then "."
  else ((components p).getLast?).getD "/"

/-- The path ends without a name: in the root, a directory itself or the one above. -/
def isNameless (p : Text) : Bool :=
  ((components p).getLast?).all fun (c : Text) => c = "." ∨ c = ".."

/-- What stands before the last slash, cleaned. -/
def parent (p : Text) : Text := clean ((p.reverse.dropWhile (· != slash)).reverse)

/-- The end of the last component from its last dot on. -/
def extension (p : Text) : Text :=
  let name := (p.reverse.takeWhile (· != slash)).reverse
  if name.contains (Text.byte '.') then
    Text.byte '.' :: (name.reverse.takeWhile (· != Text.byte '.')).reverse
  else []

/-- The path seen from the root, when relative ones are taken from `cwd`. -/
def absolute (cwd p : Text) : Text := if isAbsolute p then clean p else join [cwd, p]

/-- What is left of two lists behind their common beginning. -/
def afterCommon : List Text → List Text → List Text × List Text
  | a :: as, b :: bs => if a = b then afterCommon as bs else (a :: as, b :: bs)
  | as, bs => (as, bs)

/-- The way from the directory `origin` to `target`, if it can be told from the
paths alone. -/
def relative? (origin target : Text) : Option Text :=
  let b := clean origin
  let t := clean target
  if b = t then some "."
  else
    let b := if b = "." then [] else b
    if isAbsolute b != isAbsolute t then none
    else
      match afterCommon (components b) (components t) with
      | ([], down) => some (Text.join "/" down)
      | (up :: more, down) =>
        if up = ".." ∧ !down.isEmpty then none
        else
          some (Text.join "/" ((up :: more).map (fun _ => Text.ofString "..") ++ down))

end Path
end Tarjuman
