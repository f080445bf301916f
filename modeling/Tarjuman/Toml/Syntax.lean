/-
# The shape of TOML texts

A text is a list of statements: headers of tables, headers of elements in arrays of
tables, and pairs of a key and a value.  Numbers, dates and times are checked when
they are read, but nothing needs their values.
-/

import Tarjuman.Text.Basic

namespace Tarjuman
namespace Toml

/-- A key: its parts, from the outermost table on. -/
abbrev Key := List Text

/-- A value as it is written. -/
inductive Value where
  | text (s : Text)
  | truth (b : Bool)
  /-- A number, a date or a time. -/
  | plain
  | array (items : List Value)
  /-- A table in braces. -/
  | table (pairs : List (Key × Value))
deriving Repr, Inhabited

/-- A statement. -/
inductive Statement where
  /-- `[key]` -/
  | header (key : Key)
  /-- `[[key]]` -/
  | element (key : Key)
  /-- `key = value` -/
  | pair (key : Key) (value : Value)
deriving Repr, Inhabited

end Toml
end Tarjuman
