/-
# Files on a disk

A disk is a finite map from places to entries together with a working directory.
Paths are looked up one component at a time, through symbolic links, and every
operation either succeeds or names its cause, in the words of the operating
system.
-/

import Tarjuman.Files.Path
import Tarjuman.Text.Number

namespace Tarjuman

/-- Where an entry stands: its components, from the root on. -/
abbrev Place := List Text

/-- What stands at a place. -/
inductive DiskEntry where
  | file (content : Text)
  | directory
  /-- A symbolic link. -/
  | link (target : Text)
deriving DecidableEq, Repr

/-- Why an operation on files fails. -/
inductive FileCause where
  | missing
  | notDirectory
  | isDirectory
  | alreadyThere
  | tooManyLinks
  | nameTooLong
  | badName
  | busy
deriving DecidableEq, Repr

namespace FileCause

/-- The cause in words. -/
def text : FileCause → Text
  | missing => "no such file or directory"
  | notDirectory => "not a directory"
  | isDirectory => "is a directory"
  | alreadyThere => "file exists"
  | tooManyLinks => "too many levels of symbolic links"
  | nameTooLong => "file name too long"
  | badName => "invalid argument"
  | busy => "device or resource busy"

end FileCause

/-- A failed operation: what was tried, on which path, and why it failed. -/
structure FileFault where
  action : Text
  path : Text
  cause : FileCause
deriving DecidableEq, Repr

namespace FileFault

/-- The fault as `action path: cause`. -/
def message (f : FileFault) : Text := f.action ++ " " ++ f.path ++ ": " ++ f.cause.text

end FileFault

/-- A disk: the entries below the root and the directory where relative paths
start.  The root itself is always a directory. -/
structure Disk where
  entries : List (Place × DiskEntry) := []
  cwd : Text := "/"
deriving Repr

namespace Disk

/-- The entry at a place. -/
def get? (d : Disk) (p : Place) : Option DiskEntry :=
  if p.isEmpty then some .directory else (d.entries.find? (·.1 == p)).map (·.2)

/-- Put an entry at a place. -/
def put (d : Disk) (p : Place) (e : DiskEntry) : Disk :=
  { d with entries := (p, e) :: d.entries.filter (·.1 != p) }

/-- Take away the entry at a place. -/
def remove (d : Disk) (p : Place) : Disk :=
  { d with entries := d.entries.filter (·.1 != p) }

/-- Take away a place and all below it. -/
def erase (d : Disk) (p : Place) : Disk :=
  { d with entries := d.entries.filter fun (q, _) => !p.isPrefixOf q }

/-- Move a place and all below it. -/
def move (d : Disk) (p q : Place) : Disk :=
  let moved := d.entries.filterMap fun (r, e) => (p.isPrefixOf? r).map fun rest => (q ++ rest, e)
  let rest := (d.erase p).erase q
  { rest with entries := moved ++ rest.entries }

/-- The places below a place with their entries, named by their components there. -/
def below (d : Disk) (p : Place) : List (Place × DiskEntry) :=
  d.entries.filterMap fun (q, e) =>
    match p.isPrefixOf? q with
    | some [] => none
    | some rest => some (rest, e)
    | none => none

/-- Where a look-up ends. -/
inductive Arrival where
  /-- At an entry. -/
  | found (p : Place) (e : DiskEntry)
  /-- At a place where nothing stands, in a directory. -/
  | vacant (p : Place)
  /-- At a link in a directory, with components still to go behind it. -/
  | atLink (dir : Place) (target : Text) (rest : List Text)
  | failed (cause : FileCause)
deriving DecidableEq, Repr

/-- The longest name of an entry in bytes. -/
def longestName : Nat := 255

/-- Go down from a place along components, up to the first link that has to be
followed.  A link in the last place is followed only if `follow` says so. -/
def descend (d : Disk) (follow : Bool) (here : Place) : List Text → Arrival
  | [] =>
    match d.get? here with
    | some e => .found here e
    | none => .vacant here
  | c :: rest =>
    if d.get? here ≠ some .directory then .failed .notDirectory
    else if c = "." then descend d follow here rest
    else if c = ".." then descend d follow here.dropLast rest
    else if longestName < c.length then .failed .nameTooLong
    else
      match d.get? (here ++ [c]) with
      | none => if rest.isEmpty then .vacant (here ++ [c]) else .failed .missing
      | some (.link target) =>
        if rest.isEmpty && !follow then .found (here ++ [c]) (.link target)
        else .atLink here target rest
      | some _ => descend d follow (here ++ [c]) rest

/-- The number of links followed for one path. -/
def linkLimit : Nat := 40

/-- Go down along components through at most `budget` links. -/
def resolve (d : Disk) (follow : Bool) : Nat → Place → List Text → Arrival
  | budget, here, components =>
    match descend d follow here components with
    | .atLink dir target rest =>
      match budget with
      | 0 => .failed .tooManyLinks
      | budget + 1 =>
        resolve d follow budget (if Path.isAbsolute target then [] else dir)
          (Path.components target ++ rest)
    | arrival => arrival

/-- The length from which on paths are refused. -/
def longestPath : Nat := 4096

/-- Look a path up.  A slash at its end asks for a directory. -/
def lookup (d : Disk) (follow : Bool) (path : Text) : Arrival :=
  if path.isEmpty then .failed .missing
  else if path.contains 0 then .failed .badName
  else if longestPath ≤ path.length then .failed .nameTooLong
  else
    let dir := if Text.endsWith path "/" then [Text.ofString "."] else []
    d.resolve follow linkLimit (if Path.isAbsolute path then [] else Path.components d.cwd)
      (Path.components path ++ dir)

/-- A path without slashes at its end; the root stays. -/
def withoutSlash (path : Text) : Text :=
  match (path.reverse.dropWhile (· == Path.slash)).reverse with
  | [] => path.take 1
  | p => p

/-- The entry at a path, or why there is none. -/
def entry? (d : Disk) (follow : Bool) (path : Text) : Except FileCause DiskEntry :=
  match d.lookup follow path with
  | .found _ e => .ok e
  | .vacant _ => .error .missing
  | .atLink .. => .error .tooManyLinks
  | .failed cause => .error cause

/-- The entry behind a path, links followed. -/
def stat (d : Disk) (path : Text) : Except FileFault DiskEntry :=
  (d.entry? true path).mapError (⟨"stat", path, ·⟩)

/-- The entry at a path, the last link not followed. -/
def statLink (d : Disk) (path : Text) : Except FileFault DiskEntry :=
  (d.entry? false path).mapError (⟨"lstat", path, ·⟩)

/-- The path leads to a directory. -/
def isDirectory (d : Disk) (path : Text) : Bool :=
  match d.stat path with
  | .ok .directory => true
  | _ => false

/-- The content of a file. -/
def read (d : Disk) (path : Text) : Except FileFault Text :=
  match d.entry? true path with
  | .ok (.file content) => .ok content
  | .ok _ => .error ⟨"read", path, .isDirectory⟩
  | .error cause => .error ⟨"open", path, cause⟩

/-- Write a file, which is made if it is not there. -/
def write (d : Disk) (path content : Text) : Except FileFault Disk :=
  let fault (cause : FileCause) : FileFault := ⟨"open", path, cause⟩
  match d.lookup true (withoutSlash path) with
  | .found _ .directory => .error (fault .isDirectory)
  | .found p _ | .vacant p =>
    if Text.endsWith path "/" then .error (fault .isDirectory) else .ok (d.put p (.file content))
  | .atLink .. => .error (fault .tooManyLinks)
  | .failed cause => .error (fault cause)

/-- Make a directory. -/
def makeDirectory (d : Disk) (path : Text) : Except FileFault Disk :=
  let fault (cause : FileCause) : FileFault := ⟨"mkdir", path, cause⟩
  match d.lookup false (withoutSlash path) with
  | .vacant p => .ok (d.put p .directory)
  | .found _ _ => .error (fault .alreadyThere)
  | .atLink .. => .error (fault .tooManyLinks)
  | .failed cause => .error (fault cause)

/-- The first number from `n` on with which a name in a directory is free, if
there is one among so many. -/
def freeNumber (d : Disk) (dir : Place) (start : Text) : Nat → Nat → Nat
  | 0, n => n
  | tries + 1, n =>
    if d.get? (dir ++ [start ++ Text.ofNat n]) = none then n
    else freeNumber d dir start tries (n + 1)

/-- Make a file with a new name in a directory: its path, its place and the disk
with it.  The name ends with the number that was drawn, or with another one if
that is taken. -/
def createTemp (d : Disk) (dir start : Text) (drawn : Nat) (content : Text) :
    Except FileFault (Text × Place × Disk) :=
  let fault (cause : FileCause) : FileFault := ⟨"open", dir ++ "/" ++ start, cause⟩
  match d.lookup true dir with
  | .found p .directory =>
    let name := start ++ Text.ofNat (d.freeNumber p start d.entries.length drawn)
    .ok (dir ++ "/" ++ name, p ++ [name], d.put (p ++ [name]) (.file content))
  | .found _ _ => .error (fault .notDirectory)
  | .vacant _ => .error (fault .missing)
  | .atLink .. => .error (fault .tooManyLinks)
  | .failed cause => .error (fault cause)

/-- Move a file, which is at the place `p` with this path, to another path, over a
file that stands there. -/
def replace (d : Disk) (path : Text) (p : Place) (content target : Text) : Except FileFault Disk :=
  let fault (cause : FileCause) : FileFault := ⟨"rename", path ++ " " ++ target, cause⟩
  match d.lookup false (withoutSlash target) with
  | .found _ .directory => .error (fault .alreadyThere)
  | .found q _ | .vacant q =>
    if Text.endsWith target "/" then .error (fault .notDirectory)
    else .ok ((d.remove p).put q (.file content))
  | .atLink .. => .error (fault .tooManyLinks)
  | .failed cause => .error (fault cause)

/-- Move what stands at a path to another one, with all below it, though not to a
place below itself and not over a directory. -/
def rename (d : Disk) (path target : Text) : Except FileFault Disk :=
  let fault (cause : FileCause) : FileFault := ⟨"rename", path ++ " " ++ target, cause⟩
  match d.lookup false (withoutSlash path) with
  | .found p e =>
    let slashed := e != .directory && (Text.endsWith path "/" || Text.endsWith target "/")
    match d.lookup false (withoutSlash target) with
    | .found q e' =>
      if e' = .directory then .error (fault .alreadyThere)
      else if Path.isNameless path then .error (fault .busy)
      else if e = .directory ∨ slashed then .error (fault .notDirectory)
      else .ok (d.move p q)
    | .vacant q =>
      if Path.isNameless path then .error (fault .busy)
      else if slashed then .error (fault .notDirectory)
      else if p.isPrefixOf q then .error (fault .badName)
      else .ok (d.move p q)
    | .atLink .. => .error (fault .tooManyLinks)
    | .failed cause => .error (fault cause)
  | .vacant _ => .error (fault .missing)
  | .atLink .. => .error (fault .tooManyLinks)
  | .failed cause => .error (fault cause)

/-- Take away what stands at a path and all below it; nothing there is fine. -/
def removeAll (d : Disk) (path : Text) : Disk :=
  match d.lookup false path with
  | .found p _ => d.erase p
  | _ => d

/-- What stands before the last component of a path, without the slash between. -/
def above (path : Text) : Text :=
  ((path.reverse.dropWhile (· == Path.slash)).dropWhile (· != Path.slash)).drop 1 |>.reverse

theorem length_above_lt {path : Text} (h : above path ≠ []) : (above path).length < path.length := by
  have h1 := (List.dropWhile_suffix (l := path.reverse) (· == Path.slash)).length_le
  have h2 := (List.dropWhile_suffix
    (l := path.reverse.dropWhile (· == Path.slash)) (· != Path.slash)).length_le
  simp only [above, List.length_reverse, List.length_drop] at h1 ⊢
  have : ((path.reverse.dropWhile (· == Path.slash)).dropWhile (· != Path.slash)).length ≠ 0 := by
    intro h0
    exact h (by simp [above, List.length_eq_zero_iff.mp h0])
  omega

/-- Make a directory and all that are missing above it.  What was made before a
fault stays. -/
def makeDirectories (d : Disk) (path : Text) : Disk × Option FileFault :=
  match d.stat path with
  | .ok .directory => (d, none)
  | .ok _ => (d, some ⟨"mkdir", path, .notDirectory⟩)
  | .error _ =>
    let (d, fault) :=
      if _h : above path ≠ [] then makeDirectories d (above path) else (d, none)
    if fault.isSome then (d, fault)
    else
      match d.makeDirectory path with
      | .ok d => (d, none)
      | .error fault =>
        match d.statLink path with
        | .ok .directory => (d, none)
        | _ => (d, some fault)
termination_by path.length
decreasing_by exact length_above_lt ‹_›

end Disk
end Tarjuman
