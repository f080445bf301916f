/-
# Where scripts are written

A source under one directory has its script at the same place under another, with
`.lugha` replaced by `.js`.
-/

import Tarjuman.Files.Disk

namespace Tarjuman
namespace Target

/-- The end of the name of a source. -/
def sourceExtension : Text := ".lugha"

/-- The end of the name of a script. -/
def scriptExtension : Text := ".js"

/-- Why a source has no place for its script. -/
inductive Fault where
  /-- The way from the directory cannot be told. -/
  | unrelated (source dir : Text)
  | outside (source dir : Text)
deriving DecidableEq, Repr

namespace Fault

/-- The fault in words. -/
def message : Fault → Text
  | unrelated source dir =>
    "relative path of " ++ source ++ ": Rel: can't make " ++ source ++ " relative to " ++ dir
  | outside source dir => source ++ " is outside " ++ dir

end Fault

/-- The path of the script for a source under `dir`. -/
def path (source dir out : Text) : Except Fault Text :=
  match Path.relative? dir source with
  | none => .error (.unrelated source dir)
  | some rel =>
    if Text.startsWith rel ".." then .error (.outside source dir)
    else .ok (Path.join [out, Text.dropEnd rel sourceExtension ++ scriptExtension])

/-- The sources under a path, sorted: all files and links below it whose path ends
like a source.  Links are not followed. -/
def sources (d : Disk) (root : Text) : Except FileFault (List Text) :=
  match d.lookup false root with
  | .found p .directory =>
    let below := (d.below p).filterMap fun (rest, e) =>
      if e = .directory then none else some (Path.join (root :: rest))
    .ok ((below.filter (Text.endsWith · sourceExtension)).mergeSort
      fun a b => Text.order a b != .gt)
  | .found _ _ => .ok (if Text.endsWith root sourceExtension then [root] else [])
  | .vacant _ => .error ⟨"lstat", root, .missing⟩
  | .atLink .. => .error ⟨"lstat", root, .tooManyLinks⟩
  | .failed cause => .error ⟨"lstat", root, cause⟩

/-- Write a script, with the directories it needs. -/
def write (d : Disk) (path output : Text) : Disk × Option Text :=
  match d.makeDirectories (Path.parent path) with
  | (d, some fault) => (d, some ("create output dir: " ++ fault.message))
  | (d, none) =>
    match d.write path output with
    | .ok d => (d, none)
    | .error fault => (d, some ("write " ++ path ++ ": " ++ fault.message))

end Target
end Tarjuman
