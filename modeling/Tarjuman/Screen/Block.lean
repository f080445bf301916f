/-
# Text as a block

What is painted on a screen is a rectangle: tabs are four blanks wide, and the
lines of one piece of text are filled up with blanks to the widest of them.
-/

import Tarjuman.Unicode.Cluster

namespace Tarjuman
namespace Text

/-- The text with line feeds for line ends and blanks for tabs. -/
def spread (s : Text) : Text := replace (replace s "\t" "    ") "\r\n" "\n"

/-- The text with all its lines as wide as the widest. -/
def block (s : Text) : Text :=
  let lines := splitOn 0x0A (spread s)
  let widest := (lines.map cells).foldl max 0
  join "\n" (lines.map fun l => l ++ spaces (widest - cells l))

end Text
end Tarjuman
