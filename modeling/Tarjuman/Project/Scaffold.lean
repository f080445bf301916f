/-
# New projects

A new project has a manifest and one small program.
-/

import Tarjuman.Project.Manifest

namespace Tarjuman
namespace Scaffold

/-- The program of a new project. -/
def sample : Text := "// أول برنامج\nشيء تحية = \"مرحبا\"\nاطبع تحية\n"

/-- The name of the file with the program. -/
def mainName : Text := "main.lugha"

/-- Why a project was not made. -/
inductive Fault where
  /-- There is a manifest already. -/
  | alreadyThere (path : Text)
  | create (path : Text) (fault : FileFault)
  | write (path : Text) (fault : FileFault)
  /-- The new manifest cannot be loaded. -/
  | reload (path : Text) (fault : Manifest.Fault)
deriving DecidableEq, Repr

namespace Fault

/-- The fault in words. -/
def message : Fault → Text
  | alreadyThere path => path ++ ": lugha.toml already exists"
  | create path fault => "create " ++ path ++ ": " ++ fault.message
  | write path fault => "write " ++ path ++ ": " ++ fault.message
  | reload path fault => fault.message path

end Fault

/-- The program is written unless there is something in its place. -/
def writeSample (d : Disk) (path : Text) : Except FileFault Disk :=
  match d.stat path with
  | .error ⟨_, _, .missing⟩ => d.write path sample
  | _ => .ok d

/-- Make a project in a directory; without a name it gets the one of the directory. -/
def run (d : Disk) (dir name : Text) : Except Fault Manifest × Disk :=
  let path := Path.join [dir, Manifest.fileName]
  let src := Path.join [dir, "src"]
  let main := Path.join [src, mainName]
  let name := if name.isEmpty then Path.base (Path.absolute d.cwd dir) else name
  match d.stat path with
  | .ok _ => (.error (.alreadyThere path), d)
  | .error _ =>
    match d.makeDirectories src with
    | (d, some fault) => (.error (.create src fault), d)
    | (d, none) =>
      match d.write path (Manifest.fresh name).render with
      | .error fault => (.error (.write path fault), d)
      | .ok d =>
        match writeSample d main with
        | .error fault => (.error (.write main fault), d)
        | .ok d => ((Manifest.load d path).mapError (.reload path), d)

end Scaffold
end Tarjuman
