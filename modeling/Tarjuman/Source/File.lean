/-
# Source files

A file of a file set: its path, its content and the offsets of its line feeds.
Lines and columns count from one, columns in bytes; a line feed belongs to the
line it ends.  All arithmetic is on 32-bit words.
-/

import Tarjuman.Files.Disk
import Tarjuman.Source.Clean
import Tarjuman.Source.Span

namespace Tarjuman

/-- A place in a file. -/
structure LineCol where
  line : UInt32
  col : UInt32
deriving DecidableEq, Repr

/-- How a file's path is shown. -/
inductive PathStyle where
  /-- As it is, but only the last component of a long absolute path. -/
  | auto
  | absolute
  /-- Seen from a directory. -/
  | relative
  /-- The last component. -/
  | basename
  /-- As it is. -/
  | stored
deriving DecidableEq, Repr

namespace PathStyle

/-- The style with a given name. -/
def ofName (s : Text) : PathStyle :=
  if s = "auto" then auto
  else if s = "absolute" then absolute
  else if s = "relative" then relative
  else if s = "basename" then basename
  else stored

/-- From this length on absolute paths are long. -/
def longPath : Nat := 40

end PathStyle

namespace Source

/-- The offsets of the line feeds in a content that starts at offset `off`. -/
def breaksFrom (off : UInt32) : Text → List UInt32
  | [] => []
  | b :: r => if b = 0x0A then off :: breaksFrom (off + 1) r else breaksFrom (off + 1) r

/-- The offsets of the line feeds in a content. -/
def breaks (content : Text) : List UInt32 := breaksFrom 0 content

/-- How many line feeds stand before an offset, if there are at least `lo` and at
most `hi` of them.  Their offsets grow, so the range is halved until it is empty. -/
def breaksBefore (breaks : List UInt32) (off : UInt32) (lo hi : Nat) : Nat :=
  if lo < hi then
    let mid := (lo + hi) / 2
    if breaks.getD mid 0 < off then breaksBefore breaks off (mid + 1) hi
    else breaksBefore breaks off lo mid
  else lo
termination_by hi - lo

/-- The place of an offset, given the offsets of the line feeds. -/
def lineCol (breaks : List UInt32) (off : UInt32) : LineCol :=
  let before := breaksBefore breaks off 0 breaks.length
  let start := if before = 0 then 0 else breaks.getD (before - 1) 0 + 1
  ⟨UInt32.ofNat before + 1, off - start + 1⟩

/-- The path relative to `dir`; a path outside of it stays absolute. -/
def relativePath (cwd path dir : Text) : Text :=
  let path := Path.absolute cwd path
  match Path.relative? (Path.absolute cwd dir) path with
  | some rel => if rel = ".." ∨ Text.startsWith rel "../" then path else Path.clean rel
  | none => path

end Source

/-- A file of a file set. -/
structure SourceFile where
  id : FileId
  path : Text
  content : Text
  /-- The offsets of the line feeds. -/
  breaks : List UInt32
  flags : FileFlags
deriving DecidableEq, Repr

namespace SourceFile

/-- The number of lines; a line feed at the end opens no new one. -/
def lineCount (f : SourceFile) : UInt32 :=
  match f.content.getLast? with
  | none => 0
  | some last =>
    let n := UInt32.ofNat f.breaks.length
    if last = 0x0A then n else n + 1

/-- The first offset of a line and the first one behind it, if there is such a
line. -/
def lineBounds? (f : SourceFile) (n : UInt32) : Option (UInt32 × UInt32) :=
  let size := UInt32.ofNat f.content.length
  let count := UInt32.ofNat f.breaks.length
  if n = 0 ∨ n > count + 1 then none
  else
    let start := if n > 1 then f.breaks.getD (n.toNat - 2) 0 + 1 else 0
    let stop := if n ≤ count then f.breaks.getD (n.toNat - 1) 0 else size
    if start ≥ size then none else some (start, stop)

/-- A line without its line feed; nothing if there is no such line. -/
def line (f : SourceFile) (n : UInt32) : Text :=
  match f.lineBounds? n with
  | some (start, stop) => (⟨f.id, start, stop⟩ : Span).slice f.content
  | none => []

/-- The places of both ends of a span. -/
def resolve (f : SourceFile) (s : Span) : LineCol × LineCol :=
  (Source.lineCol f.breaks s.start, Source.lineCol f.breaks s.stop)

/-- The file's path as it is shown; `dir` is where relative paths start. -/
def displayPath (f : SourceFile) (cwd : Text) (style : PathStyle) (dir : Text) : Text :=
  match style with
  | .absolute => Path.absolute cwd f.path
  | .relative => Source.relativePath cwd f.path (if dir.isEmpty then cwd else dir)
  | .basename => Path.base f.path
  | .auto =>
    if Path.isAbsolute f.path && PathStyle.longPath ≤ f.path.length then Path.base f.path
    else f.path
  | .stored => f.path

end SourceFile

/-- The files of a run.  Adding a path again makes a new version of it and leaves
the old one in place. -/
structure FileSet where
  files : Array SourceFile := #[]
  /-- Where relative paths start, if it is not the working directory. -/
  base : Text := []
  /-- The number of the newest version of each path. -/
  index : List (Text × FileId) := []
deriving Repr

namespace FileSet

/-- The number of files. -/
def size (fs : FileSet) : Nat := fs.files.size

/-- The file that a content under a path becomes when it is added next. -/
def fresh (fs : FileSet) (path content : Text) (flags : FileFlags) : SourceFile :=
  { id := UInt32.ofNat fs.size, path := Path.clean path, content
    breaks := Source.breaks content, flags }

/-- The index when a path has a new newest version. -/
def indexWith (fs : FileSet) (path : Text) (id : FileId) : List (Text × FileId) :=
  (path, id) :: fs.index.filter (·.1 ≠ path)

/-- Add a content under a path. -/
def add (fs : FileSet) (path content : Text) (flags : FileFlags) : FileSet :=
  { fs with
    files := fs.files.push (fs.fresh path content flags)
    index := fs.indexWith (Path.clean path) (UInt32.ofNat fs.size) }

/-- Add a content that comes from no file. -/
def addVirtual (fs : FileSet) (path content : Text) : FileSet :=
  fs.add path content .isVirtual

/-- Offsets are words of thirty-two bits, so a content has fewer bytes than this. -/
def sizeLimit : Nat := 0x100000000

/-- Why a file cannot be loaded. -/
inductive LoadFault where
  | unreadable (fault : FileFault)
  | tooLarge (path : Text)
deriving DecidableEq, Repr

/-- The fault in words. -/
def LoadFault.message : LoadFault → Text
  | unreadable fault => fault.message
  | tooLarge path => path ++ ": source file exceeds 4 GiB"

/-- Why no file is added. -/
inductive CallFault where
  | unloaded (fault : LoadFault)
  /-- There are not enough offsets for the content. -/
  | tooLarge (path : Text)
  /-- There is no number left. -/
  | full
deriving DecidableEq, Repr

namespace CallFault

/-- The fault in words. -/
def message : CallFault → Text
  | unloaded fault => fault.message
  | tooLarge path => (LoadFault.tooLarge path).message
  | full => "file set overflow"

/-- The fault with the path that was to be loaded. -/
def report (path : Text) (fault : CallFault) : Text := "load " ++ path ++ ": " ++ fault.message

/-- The file is not there. -/
def isMissing : CallFault → Bool
  | unloaded (.unreadable fault) => fault.cause = .missing
  | _ => false

end CallFault

/-- Add a content if there are offsets for it and a number for the file: the file that is new,
and the set from then on. -/
def store (fs : FileSet) (path content : Text) (flags : FileFlags) :
    Except CallFault SourceFile × FileSet :=
  if sizeLimit ≤ content.length then (.error (.tooLarge path), fs)
  else if sizeLimit ≤ fs.size then (.error .full, fs)
  else (.ok (fs.fresh path content flags), fs.add path content flags)

theorem store_eq_ok {fs : FileSet} {content : Text} (hcontent : content.length < sizeLimit)
    (hsize : fs.size < sizeLimit) (path : Text) (flags : FileFlags) :
    fs.store path content flags =
      (.ok (fs.fresh path content flags), fs.add path content flags) := by
  rw [store, if_neg (Nat.not_le_of_lt hcontent), if_neg (Nat.not_le_of_lt hsize)]

theorem store_eq_tooLarge {content : Text} (h : sizeLimit ≤ content.length) (fs : FileSet)
    (path : Text) (flags : FileFlags) :
    fs.store path content flags = (.error (.tooLarge path), fs) := if_pos h

theorem store_eq_full {fs : FileSet} {content : Text} (hcontent : content.length < sizeLimit)
    (hsize : sizeLimit ≤ fs.size) (path : Text) (flags : FileFlags) :
    fs.store path content flags = (.error .full, fs) := by
  rw [store, if_neg (Nat.not_le_of_lt hcontent), if_pos hsize]

/-- Read a file and clean it, if it is not too large. -/
def fetch (d : Disk) (path : Text) : Except LoadFault (Text × FileFlags) :=
  match d.read path with
  | .error fault => .error (.unreadable fault)
  | .ok raw => if sizeLimit ≤ raw.length then .error (.tooLarge path) else .ok (Source.clean raw)

/-- Fetch a file and add it.  What was cleaned may be too large then. -/
def load (fs : FileSet) (d : Disk) (path : Text) : Except CallFault SourceFile × FileSet :=
  match fetch d path with
  | .error fault => (.error (.unloaded fault), fs)
  | .ok (content, flags) => fs.store path content flags

theorem load_of_fetch {d : Disk} {path content : Text} {flags : FileFlags}
    (h : fetch d path = .ok (content, flags)) (fs : FileSet) :
    fs.load d path = fs.store path content flags := by
  rw [load, h]

theorem load_of_fault {d : Disk} {path : Text} {fault : LoadFault}
    (h : fetch d path = .error fault) (fs : FileSet) :
    fs.load d path = (.error (.unloaded fault), fs) := by
  rw [load, h]

/-- What can be asked of a file set to make it grow. -/
inductive Call where
  | add (path content : Text) (flags : FileFlags)
  | addVirtual (path content : Text)
  /-- Load a path from a disk as it is at that time. -/
  | load (disk : Disk) (path : Text)

/-- Answer a call. -/
def perform (fs : FileSet) : Call → Except CallFault SourceFile × FileSet
  | .add path content flags => fs.store path content flags
  | .addVirtual path content => fs.store path content .isVirtual
  | .load d path => fs.load d path

/-- The file with a number. -/
def get? (fs : FileSet) (id : FileId) : Option SourceFile := fs.files[id.toNat]?

/-- There is a file with this number. -/
def has (fs : FileSet) (id : FileId) : Bool := id.toNat < fs.size

/-- The number of the newest version of a path. -/
def latest? (fs : FileSet) (path : Text) : Option FileId :=
  (fs.index.find? (·.1 == Path.clean path)).map (·.2)

/-- Where relative paths start. -/
def baseDir (fs : FileSet) (cwd : Text) : Text := if fs.base.isEmpty then cwd else fs.base

end FileSet
end Tarjuman
