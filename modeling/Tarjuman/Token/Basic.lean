/-
# Tokens

A token is a kind with the line and the span it was read at.  Its text is not
stored: it is the span's slice of the content.
-/

import Tarjuman.Source.Span
import Tarjuman.Token.Kind

namespace Tarjuman

/-- A token; lines count from one. -/
structure Token where
  kind : Kind
  line : UInt32
  span : Span
deriving DecidableEq, Repr, Inhabited

namespace Token

/-- The token's text in the content it was read from. -/
def text (t : Token) (content : Text) : Text := t.span.slice content

end Token
end Tarjuman
