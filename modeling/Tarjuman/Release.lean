/-
# The release of the program

The version, what is recorded of the build, and how both are shown.
-/

import Tarjuman.Terminal.Paint
import Tarjuman.Text.Json
import Tarjuman.Text.Utf8

namespace Tarjuman

/-- What is recorded of a build. -/
structure Release where
  version : Text := "0.1.0-dev"
  commit : Text := []
  message : Text := []
  date : Text := []
deriving DecidableEq, Repr

namespace Release

/-- What the program does, in a few words. -/
def tagline : Text := "Arabic keywords in, JavaScript out"

/-- The byte starts what follows the patch number. -/
def opensSuffix (b : UInt8) : Bool := b == Text.byte '-' || b == Text.byte '+'

/-- A version with its three numbers painted, if colours are on.  What follows the
patch number stays plain, and so does a version that has not three parts. -/
def painted (version : Text) (on : Bool) : Text :=
  match Text.cut? "." version with
  | none => version
  | some (major, rest) =>
    match Text.cut? "." rest with
    | none => version
    | some (minor, patch) =>
      Paint.yellow.inBold.apply on major ++ "." ++ Paint.green.inBold.apply on minor ++ "." ++
        Paint.blue.inBold.apply on (patch.takeWhile (!opensSuffix ·)) ++
        patch.dropWhile (!opensSuffix ·)

/-- What a report shows besides the version. -/
structure Wish where
  commit : Bool
  message : Bool
  date : Bool
deriving DecidableEq, Repr

/-- The release without blanks around its parts; a version is always there. -/
def trimmed (r : Release) : Release :=
  let version := Text.trim r.version
  ⟨if version.isEmpty then "dev" else version, Text.trim r.commit, Text.trim r.message,
   Text.trim r.date⟩

/-- A part that may not be recorded. -/
def known (s : Text) : Text := if s.isEmpty then "unknown" else s

/-- The report for readers. -/
def lines (r : Release) (w : Wish) (colour : Bool) : Text :=
  let r := r.trimmed
  "lugha " ++ painted r.version colour ++ ": " ++ tagline ++ "\n" ++
    Text.when w.commit ("commit:  " ++ known r.commit ++ "\n") ++
    Text.when w.message ("message: " ++ known r.message ++ "\n") ++
    Text.when w.date ("built:   " ++ known r.date ++ "\n")

/-- The report as a JSON document. -/
def document (r : Release) (w : Wish) : Text :=
  let r := r.trimmed
  (Json.record
    [Json.text "tool" "lugha", Json.text "version" r.version, Json.text "tagline" tagline,
     Json.textUnlessEmpty "git_commit" (Text.when w.commit (known r.commit)),
     Json.textUnlessEmpty "git_message" (Text.when w.message (known r.message)),
     Json.textUnlessEmpty "build_date" (Text.when w.date (known r.date))]).document

end Release
end Tarjuman
