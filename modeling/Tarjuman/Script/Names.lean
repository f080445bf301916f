/-
# Names in use

The names that a script has bound so far, each with the spelling it is written
with.  There are no scopes: a later binding of a name takes the place of the
earlier one.
-/

import Tarjuman.Text.Basic

namespace Tarjuman

/-- The names bound so far. -/
structure Names where
  /-- Each name with its spelling. -/
  spellings : List (Text × Text) := []
  /-- Each spelling with the name that was last written with it. -/
  owners : List (Text × Text) := []
deriving Repr

/-- What came of binding a name. -/
structure Binding where
  raw : Text
  spelling : Text
  /-- The name was bound before. -/
  redeclared : Bool
  /-- Another name that is written with the same spelling. -/
  clash : Option Text
deriving DecidableEq, Repr

namespace Names

/-- Replace the value of a key, or put the key at the end. -/
def put (k v : Text) : List (Text × Text) → List (Text × Text)
  | [] => [(k, v)]
  | (k', v') :: r => if k' = k then (k, v) :: r else (k', v') :: put k v r

/-- The spelling of a bound name. -/
def lookup (ns : Names) (raw : Text) : Option Text := ns.spellings.lookup raw

/-- The number of bound names. -/
def size (ns : Names) : Nat := ns.spellings.length

/-- Bind a name, written with the spelling that `rename` gives it.  An empty name
clashes with nothing. -/
def bind (rename : Text → Text) (ns : Names) (raw : Text) : Binding × Names :=
  let spelling := rename raw
  ({ raw, spelling
     redeclared := (ns.lookup raw).isSome
     clash := (ns.owners.lookup spelling).filter fun other => other != raw && !other.isEmpty },
   { spellings := put raw spelling ns.spellings
     owners := put spelling raw ns.owners })

end Names
end Tarjuman
