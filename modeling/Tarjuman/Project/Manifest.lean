/-
# The manifest of a project

`lugha.toml` names a project, its sources and where scripts go.  Names of sections
and keys may be written in capitals too, except where the manifest is asked whether
something is there at all.
-/

import Tarjuman.Files.Disk
import Tarjuman.Toml.Outline
import Tarjuman.Toml.Reader

namespace Tarjuman

/-- A manifest. -/
structure Manifest where
  name : Text
  /-- Where the sources are. -/
  src : Text
  /-- Where scripts go. -/
  out : Text
  /-- What stands between fragments. -/
  separator : Text
  /-- Spell names in Latin letters. -/
  latinize : Bool
  banner : Bool
  /-- The directory of the manifest. -/
  root : Text
deriving DecidableEq, Repr

namespace Manifest

/-- The name of the file. -/
def fileName : Text := "lugha.toml"

/-- Where scripts go if nothing is said. -/
def usualOut : Text := "build"

/-- What stands between fragments if nothing is said. -/
def usualSeparator : Text := "\n"

/-- A path of the manifest, seen from the root. -/
def resolve (m : Manifest) (p : Text) : Text :=
  if Path.isAbsolute p then p else Path.join [m.root, p]

/-- The directory of the sources. -/
def srcDir (m : Manifest) : Text := m.resolve m.src

/-- The directory of the scripts. -/
def outDir (m : Manifest) : Text := m.resolve m.out

/-- Why there is no manifest. -/
inductive Fault where
  /-- The file cannot be read. -/
  | unreadable (fault : FileFault)
  /-- The file is not TOML, or a value has the wrong type. -/
  | malformed
  | noPackage
  | noName
  | noSource
  | unknownKeys (keys : List Toml.Key)
deriving DecidableEq, Repr

/-- The escapes of one letter within a quoted key or text. -/
def escapeOf (b : UInt8) : Text :=
  if b == Text.byte '"' || b == Text.byte '\\' then [Text.byte '\\', b]
  else if b == 0x08 then "\\b"
  else if b == 0x09 then "\\t"
  else if b == 0x0A then "\\n"
  else if b == 0x0C then "\\f"
  else if b == 0x0D then "\\r"
  else if b < 0x20 || b == 0x7F then "\\u" ++ Text.hexPadded 4 b.toNat
  else [b]

/-- A text between quotes, as it is written in a manifest. -/
def quoted (s : Text) : Text := "\"" ++ s.flatMap escapeOf ++ "\""

/-- A part of a key, in quotes if it needs them. -/
def shownPart (s : Text) : Text := if !s.isEmpty && s.all Toml.isBare then s else quoted s

/-- A key as it is shown. -/
def shownKey (k : Toml.Key) : Text := Text.join "." (k.map shownPart)

namespace Fault

/-- What is wrong with the file. -/
def cause : Fault → Text
  | unreadable _ | malformed => "failed to parse TOML"
  | noPackage => "missing [package]"
  | noName => "missing [package].name"
  | noSource => "missing [build].src"
  | unknownKeys keys => "unknown keys: " ++ Text.join ", " (keys.map shownKey)

/-- The fault in words. -/
def message (path : Text) (f : Fault) : Text := path ++ ": " ++ f.cause

/-- The file is not there. -/
def isMissing : Fault → Bool
  | unreadable fault => fault.cause = .missing
  | _ => false

end Fault

/-- A key says text, or it says yes or no. -/
inductive FieldKind where
  | text
  | truth
deriving DecidableEq, Repr

/-- The sections with their keys. -/
def sections : List (Text × List (Text × FieldKind)) :=
  [("package", [("name", .text)]),
   ("build", [("src", .text), ("out", .text), ("separator", .text), ("latinize", .truth),
     ("banner", .truth)])]

/-- The small letter that a character counts as; the long s and the sign of the
kelvin count as letters too. -/
def smallLetter (c : Char) : Char :=
  if c = 'ſ' then 's' else if c.toNat = 0x212A then 'k' else c.toLower

/-- The name is written in small letters or capitals. -/
def isNamed (name s : Text) : Bool :=
  Utf8.isValid s && (Utf8.chars s).map smallLetter == Utf8.chars name

/-- What the manifest calls by this name, if anything. -/
def named? {α : Type} (names : List (Text × α)) (s : Text) : Option α :=
  (names.find? fun (n, _) => isNamed n s).map (·.2)

/-- What stands at a key has the right type. -/
def FieldKind.accepts : FieldKind → Toml.Node → Bool
  | text, .text _ => true
  | truth, .truth _ => true
  | _, _ => false

variable (o : Toml.Outline)

/-- Every section is a table, and every key in it has the right type. -/
def isTyped : Bool :=
  (o.below []).all fun (s, n) =>
    match named? sections s with
    | none => true
    | some fields =>
      n = .table && (o.below [s]).all fun (f, m) => ((named? fields f).map (·.accepts m)).getD true

/-- The key is one of the manifest's. -/
def isKnown (k : Toml.Key) : Bool :=
  match k with
  | [s] => (named? sections s).isSome
  | [s, f] => (named? sections s).any fun fields => (named? fields f).isSome
  | _ => false

/-- The nodes of a key in a section. -/
def nodesOf (sec name : Text) : List Toml.Node :=
  ((o.below []).filter fun (s, _) => isNamed sec s).flatMap fun (s, _) =>
    ((o.below [s]).filter fun (f, _) => isNamed name f).map (·.2)

/-- The text at a key, if it is there. -/
def textOf (sec name : Text) : Text :=
  ((nodesOf o sec name).findSome? fun
    | .text s => some s
    | _ => none).getD []

/-- The truth at a key, if it is there. -/
def truthOf (sec name : Text) (usual : Bool) : Bool :=
  ((nodesOf o sec name).findSome? fun
    | .truth b => some b
    | _ => none).getD usual

/-- The manifest that an outline describes. -/
def ofOutline (root : Text) : Except Fault Manifest :=
  let name := Text.trim (textOf o "package" "name")
  let src := Text.trim (textOf o "build" "src")
  let out := textOf o "build" "out"
  let unknown := o.order.filter (!isKnown ·)
  if !isTyped o then .error .malformed
  else if (o.find? ["package"]).isNone then .error .noPackage
  else if name.isEmpty then .error .noName
  else if src.isEmpty then .error .noSource
  else if !unknown.isEmpty then .error (.unknownKeys unknown)
  else
    .ok
      { name, src
        out := if (Text.trim out).isEmpty then usualOut else out
        separator :=
          if (o.find? ["build", "separator"]).isSome then textOf o "build" "separator"
          else usualSeparator
        latinize := truthOf o "build" "latinize" false
        banner := truthOf o "build" "banner" true
        root }

/-- The manifest that a text holds. -/
def ofText (root s : Text) : Except Fault Manifest :=
  match (Toml.read? s).bind Toml.Outline.ofStatements? with
  | some o => ofOutline o root
  | none => .error .malformed

/-- Load a manifest. -/
def load (d : Disk) (path : Text) : Except Fault Manifest :=
  match d.read path with
  | .error fault => .error (.unreadable fault)
  | .ok s => ofText (Path.absolute d.cwd (Path.parent path)) s

/-- Why the search for a manifest was given up. -/
structure SearchFault where
  candidate : Text
  fault : FileFault
deriving DecidableEq, Repr

/-- The fault in words. -/
def SearchFault.message (f : SearchFault) : Text :=
  "stat " ++ Text.quoted f.candidate ++ ": " ++ f.fault.message

/-- Look for a manifest in directories, one after the other. -/
def search (d : Disk) : List Text → Except SearchFault (Option Text)
  | [] => .ok none
  | dir :: more =>
    let candidate := Path.join [dir, fileName]
    match d.stat candidate with
    | .ok _ => .ok (some candidate)
    | .error fault =>
      if fault.cause = .missing then search d more else .error ⟨candidate, fault⟩

/-- A directory and all above it. -/
def upwards (dir : Text) : List Text :=
  let cs := Path.components dir
  ((List.range (cs.length + 1)).map fun n => Path.ofComponents true (cs.take n)).reverse

/-- Look for a manifest at a path and above it; the path may also be that of a file. -/
def locate (d : Disk) (start : Text) : Except SearchFault (Option Text) :=
  let dir := Path.absolute d.cwd (if start.isEmpty then "." else start)
  match d.stat dir with
  | .ok .directory | .error _ => search d (upwards dir)
  | .ok _ => search d (upwards (Path.parent dir))

/-- The manifest of a new project. -/
def fresh (name : Text) : Manifest := ⟨name, "src", usualOut, usualSeparator, false, true, []⟩

/-- A truth value in a manifest. -/
def shownTruth (b : Bool) : Text := if b then "true" else "false"

/-- The manifest as a text. -/
def render (m : Manifest) : Text :=
  "[package]\n  name = " ++ quoted m.name ++ "\n\n[build]\n  src = " ++ quoted m.src ++
    "\n  out = " ++ quoted m.out ++ "\n  separator = " ++ quoted m.separator ++
    "\n  latinize = " ++ shownTruth m.latinize ++ "\n  banner = " ++ shownTruth m.banner ++ "\n"

end Manifest
end Tarjuman
