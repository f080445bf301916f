/-
# Payloads on disk

A store is a directory with one file for each payload, named by its key:
`files/ab/abcd….mp`.  An entry of another version counts as not there.
-/

import Tarjuman.Build.Packed
import Tarjuman.Files.Disk

namespace Tarjuman

/-- A directory of payloads. -/
structure Store where
  dir : Text
deriving DecidableEq, Repr

namespace Store

/-- The directory that a file of the store lies in. -/
def folder (st : Store) (key : Digest) : Text :=
  Path.join [st.dir, "files", key.hex.take 2]

/-- The file of a key. -/
def entryPath (st : Store) (key : Digest) : Text :=
  Path.join [st.dir, "files", key.hex.take 2, key.hex ++ ".mp"]

/-- Make the directory of a store. -/
def openAt (d : Disk) (dir : Text) : Disk × Except Text Store :=
  match d.makeDirectories dir with
  | (d, none) => (d, .ok ⟨dir⟩)
  | (d, some fault) => (d, .error ("create cache dir: " ++ fault.message))

/-- Keep a payload.  It is written beside its place, under a name with a number
that is drawn, and then moved there; what was written does not survive a fault. -/
def put (st : Store) (d : Disk) (key : Digest) (p : Payload) (drawn : Nat := 0) :
    Disk × Option FileFault :=
  match d.makeDirectories (st.folder key) with
  | (d, some fault) => (d, some fault)
  | (d, none) =>
    let bytes := Packed.encode { p with schema := BuildOptions.schema }
    match d.createTemp (st.folder key) "tmp-" drawn bytes with
    | .error fault => (d, some fault)
    | .ok (path, place, made) =>
      match made.replace path place bytes (st.entryPath key) with
      | .ok d => (d, none)
      | .error fault => (made.remove place, some fault)

/-- What is said of an entry that is not readable. -/
def unreadable : Text := "decode cache entry"

/-- The payload under a key, or why it cannot be told. -/
def get (st : Store) (d : Disk) (key : Digest) : Except Text (Option Payload) :=
  match d.read (st.entryPath key) with
  | .ok bytes =>
    match Packed.decode? bytes with
    | some p => .ok (if p.schema = BuildOptions.schema then some p else none)
    | none => .error unreadable
  | .error fault =>
    if fault.cause = .missing then .ok none
    else if fault.cause = .isDirectory then .error unreadable
    else .error fault.message

/-- What stands at the end of an old name. -/
def oldEnding (stamp : Nat) : Text := ".old-" ++ Text.ofNat stamp

/-- The path to which the directory of a store is moved before it is taken away. -/
def oldPath (st : Store) (stamp : Nat) : Text := st.dir ++ oldEnding stamp

/-- Drop all payloads; the store stays usable.  The digits of the time make a new
name for the directory. -/
def clear (st : Store) (d : Disk) (stamp : Nat) : Disk × Option FileFault :=
  match d.rename st.dir (st.oldPath stamp) with
  | .ok d => (d.removeAll (st.oldPath stamp)).makeDirectories st.dir
  | .error fault =>
    if fault.cause = .missing then d.makeDirectories st.dir else (d, some fault)

end Store
end Tarjuman
