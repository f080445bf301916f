/-
# JSON documents

JSON values whose objects keep the order of their fields, and their text: on one
line (`compact`) or with two spaces for each level (`indented`).

Strings are escaped so that the text can stand inside a web page: `<`, `>` and
`&` are written by their codes, as are control characters and the two Unicode line
separators.  Each byte that is not UTF-8 becomes U+FFFD.
-/

import Tarjuman.Text.Number
import Tarjuman.Text.Utf8

namespace Tarjuman

/-- A JSON value. -/
inductive Json where
  | null
  | bool (b : Bool)
  /-- A number, given by its text. -/
  | number (digits : Text)
  | string (s : Text)
  | array (items : List Json)
  | object (fields : List (Text × Json))
deriving Inhabited

namespace Json

/-- The number with a decimal numeral. -/
def nat (n : Nat) : Json := .number (Text.ofNat n)

/-- One character inside a string. -/
def escapeChar (c : Char) : Text :=
  let n := c.toNat
  if c = '"' then "\\\""
  else if c = '\\' then "\\\\"
  else if n = 0x08 then "\\b"
  else if n = 0x0C then "\\f"
  else if n = 0x0A then "\\n"
  else if n = 0x0D then "\\r"
  else if n = 0x09 then "\\t"
  else if n < 0x20 ∨ c = '<' ∨ c = '>' ∨ c = '&' ∨ n = 0x2028 ∨ n = 0x2029 then
    "\\u" ++ Text.hexPadded 4 n
  else Utf8.encode c

/-- A string between its quotes. -/
def quoted (s : Text) : Text :=
  "\"" ++ ((Utf8.items s).flatMap fun
    | .char c => escapeChar c
    | .stray _ => Utf8.encode Utf8.replacement) ++ "\""

mutual

/-- Everything on one line. -/
def compact : Json → Text
  | .null => "null"
  | .bool b => if b then "true" else "false"
  | .number digits => digits
  | .string s => quoted s
  | .array items => "[" ++ Text.join "," (compactItems items) ++ "]"
  | .object fields => "\x7b" ++ Text.join "," (compactFields fields) ++ "\x7d"

/-- The items of an array, each on one line. -/
def compactItems : List Json → List Text
  | [] => []
  | j :: r => compact j :: compactItems r

/-- The fields of an object, each on one line. -/
def compactFields : List (Text × Json) → List Text
  | [] => []
  | (k, j) :: r => (quoted k ++ ":" ++ compact j) :: compactFields r

end

/-- A line break and the indentation of a level. -/
def newline (level : Nat) : Text := "\n" ++ Text.spaces (2 * level)

/-- Items on lines of their own between brackets; brackets alone if there are
none. -/
def onLines (level : Nat) (opening closing : Text) (items : List Text) : Text :=
  if items.isEmpty then opening ++ closing
  else
    opening ++ newline (level + 1) ++ Text.join ("," ++ newline (level + 1)) items ++
      newline level ++ closing

mutual

/-- Every item and field on a line of its own. -/
def indented (level : Nat) : Json → Text
  | .null => "null"
  | .bool b => if b then "true" else "false"
  | .number digits => digits
  | .string s => quoted s
  | .array items => onLines level "[" "]" (indentedItems (level + 1) items)
  | .object fields => onLines level "\x7b" "\x7d" (indentedFields (level + 1) fields)

/-- The items of an array at a level. -/
def indentedItems (level : Nat) : List Json → List Text
  | [] => []
  | j :: r => indented level j :: indentedItems level r

/-- The fields of an object at a level. -/
def indentedFields (level : Nat) : List (Text × Json) → List Text
  | [] => []
  | (k, j) :: r => (quoted k ++ ": " ++ indented level j) :: indentedFields level r

end

/-- The document on indented lines, with a line feed at its end. -/
def document (j : Json) : Text := j.indented 0 ++ "\n"

/-- Fields that may be left out: a list of none or one. -/
abbrev Field := List (Text × Json)

/-- An object with these fields. -/
def record (fields : List Field) : Json := .object fields.flatten

/-- A field that is always there. -/
def field (name : Text) (j : Json) : Field := [(name, j)]

/-- A field with a text. -/
def text (name s : Text) : Field := field name (.string s)

/-- A field with a number. -/
def count (name : Text) (n : Nat) : Field := field name (nat n)

/-- A field that is left out when its text is empty. -/
def textUnlessEmpty (name s : Text) : Field := if s.isEmpty then [] else text name s

/-- A field that is left out when its number is zero. -/
def countUnlessZero (name : Text) (n : Nat) : Field := if n = 0 then [] else count name n

/-- A field that is left out when its list is empty. -/
def itemsUnlessEmpty (name : Text) (items : List Json) : Field :=
  if items.isEmpty then [] else field name (.array items)

end Json
end Tarjuman
