/-
# Tokens for readers

The tokens of a file up to the end of the input, as lines or as a JSON document.
-/

import Tarjuman.Source.File
import Tarjuman.Text.Json
import Tarjuman.Text.Quoted
import Tarjuman.Token.Basic

namespace Tarjuman
namespace TokenListing

/-- The tokens up to and with the first end of the input. -/
def upToEnd : List Token → List Token
  | [] => []
  | t :: r => if t.kind = .endOfInput then [t] else t :: upToEnd r

/-- The text of a token whose file is in the set. -/
def tokenText (fs : Option FileSet) (t : Token) : Text :=
  match fs.bind (·.get? t.span.file) with
  | some f => t.text f.content
  | none => []

/-- A place as `line:column`. -/
def place (p : LineCol) : Text := Text.ofNat p.line.toNat ++ ":" ++ Text.ofNat p.col.toNat

/-- A token of the file on one line. -/
def line (f : SourceFile) (index : Nat) (t : Token) : Text :=
  let (start, stop) := f.resolve t.span
  let text := t.text f.content
  Text.padLeft 3 (Text.ofNat (index + 1)) ++ ": " ++ Text.padRight 10 t.kind.name ++
    Text.when (!text.isEmpty) (" " ++ Text.quoted text) ++
    " at " ++ place start ++ "-" ++ place stop ++ " (line " ++ Text.ofNat t.line.toNat ++ ")\n"

/-- The tokens as lines, if each of them lies in a file of the set. -/
def lines? (fs : FileSet) (ts : List Token) : Option Text :=
  let lines := (upToEnd ts).zipIdx.mapM fun ((t, i) : Token × Nat) =>
    (fs.get? t.span.file).map fun f => line f i t
  lines.map List.flatten

/-- One token as a JSON object. -/
def entry (fs : Option FileSet) (t : Token) : Json :=
  Json.record [Json.text "kind" t.kind.name, Json.textUnlessEmpty "text" (tokenText fs t),
    Json.count "line" t.line.toNat, Json.count "start" t.span.start.toNat,
    Json.count "len" t.span.size.toNat]

/-- The tokens as a JSON document. -/
def document (fs : Option FileSet) (ts : List Token) : Text :=
  (Json.array ((upToEnd ts).map (entry fs))).document

end TokenListing
end Tarjuman
