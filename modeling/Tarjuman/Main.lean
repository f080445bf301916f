/-
# The command line

The files around a command are read into a `Disk`, `Command.execute` does the work,
and what it changed is written back.  Contents are read only where a command may
look at them: sources, scripts, manifests, what the store keeps, and the files that
the arguments name.
-/

import Tarjuman.Command.Run
import Tarjuman.Files.Change

namespace Tarjuman
namespace Shell

/-- A text as a name for the operating system. -/
def nameOf (t : Text) : String := String.ofList (Utf8.chars t)

/-- The ends of the names of files whose contents count. -/
def wantedEnds : List Text :=
  [Target.sourceExtension, Target.scriptExtension, ".mp", Manifest.fileName]

/-- The content of a file with this name counts. -/
def isWanted (path : Text) : Bool := wantedEnds.any (Text.endsWith path)

/-- What stands at an absolute path; the content only if it is wanted. -/
def entryAt? (wanted : Bool) (path : Text) : IO (Option DiskEntry) := do
  let place := (← IO.currentDir) / nameOf path
  try
    match (← place.metadata).type with
    | .dir => return some .directory
    | _ =>
      if wanted then return some (.file (← IO.FS.readBinFile place).data.toList)
      else return some (.file [])
  catch _ => return none

/-- Add what stands at a path. -/
def addEntry (d : Disk) (path : Text) (wanted : Bool) : IO Disk := do
  match ← entryAt? wanted path with
  | some e => return if path = "/" then d else d.put (Path.components path) e
  | none => return d

/-- Add a path, the directories above it and their manifests. -/
def addChain (d : Disk) (path : Text) : IO Disk := do
  let mut d := d
  let parts := Path.components path
  for n in [0 : parts.length + 1] do
    let here := Path.ofComponents true (parts.take n)
    d ← addEntry d here true
    d ← addEntry d (Path.join [here, Manifest.fileName]) true
  return d

/-- Add all that stands below a directory; links to directories are not followed. -/
partial def addTree (d : Disk) (path : Text) : IO Disk := do
  let place := (← IO.currentDir) / nameOf path
  if !(← place.isDir) then return d
  let mut d := d
  for e in ← place.readDir do
    let below := Path.join [path, Text.ofString e.fileName]
    d ← addEntry d below (isWanted below)
    try
      if (← e.path.symlinkMetadata).type == .dir then d ← addTree d below
    catch _ => pure ()
  return d

/-- The nearest directory at or above a path that holds a manifest, or the path. -/
def projectOf (d : Disk) (path : Text) : Text :=
  match Manifest.locate d path with
  | .ok (some manifest) => Path.parent manifest
  | _ => path

/-- The paths that an argument may name: all of it, or the value of an option. -/
def pathsOf (cwd arg : Text) : List Text :=
  (arg :: ((Text.cut? "=" arg).map (·.2)).toList).map (Path.absolute cwd)

/-- The files around a command. -/
def snapshot (w : Setting) (args : List Text) : IO Disk := do
  let cwd := Text.ofString (← IO.currentDir).toString
  let starts := cwd :: args.flatMap (pathsOf cwd)
  let mut d : Disk := { cwd }
  for path in starts do
    d ← addChain d path
  for path in (starts.map (projectOf d)).eraseDups do
    d ← addTree d path
  for path in args.flatMap (pathsOf cwd) do
    d ← addEntry d path true
  if let .ok store := Command.storeDir w then
    d ← addChain d (Path.absolute cwd store)
    d ← addTree d (Path.absolute cwd store)
  return d

/-- Make the files what a command left. -/
def settle (before after : Disk) : IO Unit := do
  for p in after.gone before do
    let place := (← IO.currentDir) / nameOf (Path.ofComponents true p)
    if ← place.isDir then IO.FS.removeDirAll place else IO.FS.removeFile place
  for (p, e) in after.changed before do
    let place := (← IO.currentDir) / nameOf (Path.ofComponents true p)
    match e with
    | .directory => IO.FS.createDirAll place
    | .file content => IO.FS.writeBinFile place ⟨content.toArray⟩
    | .link _ => pure ()

/-- What the environment tells a command. -/
def setting : IO Setting := do
  let valueOf := fun (name : String) => do
    return Text.ofString ((← IO.getEnv name).getD "")
  return {
    cacheHome := ← valueOf "XDG_CACHE_HOME"
    home := ← valueOf "HOME"
    outIsTerminal := ← (← IO.getStdout).isTty
    errIsTerminal := ← (← IO.getStderr).isTty }

/-- Run arguments; one for any failure. -/
def run (args : List Text) : IO UInt32 := do
  let w ← setting
  let before ← snapshot w args
  let e := Command.execute w before args
  settle before e.disk
  (← IO.getStdout).write ⟨e.out.toArray⟩
  (← IO.getStderr).write ⟨(e.err ++ e.trace).toArray⟩
  match e.failure with
  | none => return 0
  | some .reported => return 1
  | some (.message s) =>
    let line : Text := "lugha: " ++ s ++ "\n"
    (← IO.getStderr).write ⟨line.toArray⟩
    return 1

end Shell
end Tarjuman

def main (args : List String) : IO UInt32 := Tarjuman.Shell.run (args.map Tarjuman.Text.ofString)
