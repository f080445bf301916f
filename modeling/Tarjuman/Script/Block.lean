/-
# Open blocks

A function, a loop and a condition each open a block that `انتهى` closes; `وإلا`
turns the block of a condition into that of its other branch.
-/

import Tarjuman.Source.Span

namespace Tarjuman

/-- What opened a block. -/
inductive BlockKind where
  | function
  | whileLoop
  | ifBranch
  | elseBranch
deriving DecidableEq, Repr

namespace BlockKind

/-- The kind of block with a given number. -/
def ofNumber? : Nat → Option BlockKind
  | 1 => some .function
  | 2 => some .whileLoop
  | 3 => some .ifBranch
  | 4 => some .elseBranch
  | _ => none

/-- The name of the kind. -/
def name : BlockKind → Text
  | .function => "function"
  | .whileLoop => "while"
  | .ifBranch => "if"
  | .elseBranch => "else"

end BlockKind

/-- A block that is not closed yet, with the keyword that opened it. -/
structure Block where
  kind : BlockKind
  opened : Span
deriving DecidableEq, Repr

end Tarjuman
