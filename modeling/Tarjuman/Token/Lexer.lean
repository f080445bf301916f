/-
# From bytes to tokens

Reading a content from left to right.  `Cursor.fetch` gives the next token; when
a string or a raw literal is not closed it reports that and gives the end of the
input.  `tokenize` fetches until the end (`fetchAll`), and a `Lexer` does the
same one token at a time with a token of lookahead.
-/

import Tarjuman.Diagnostic.Basic
import Tarjuman.Token.Basic
import Tarjuman.Token.Cursor
import Tarjuman.Token.Lexeme

namespace Tarjuman

/-- One token that was read, what was reported on the way and where reading
goes on. -/
structure Fetch where
  token : Token
  report : Option Diagnostic := none
  cursor : Cursor

namespace Cursor

/-- Pass over the trivia. -/
def skipTrivia (c : Cursor) : Cursor := c.skip (Lexeme.triviaSize false c.rest)

/-- The token that marks the end of the input. -/
def endToken (c : Cursor) : Token := ⟨.endOfInput, c.line, .point c.file c.off⟩

/-- Report a lexeme that is not closed and go to the end of the input. -/
def unclosed (c : Cursor) (code : Code) (message : Text) : Fetch :=
  let last := c.skip c.rest.length
  { token := last.endToken
    report := some (.error code (last.spanFrom c) message)
    cursor := last }

/-- A token of `size` bytes at the cursor.  An identifier is reported when it is
not valid UTF-8. -/
def take (c : Cursor) (kind : Kind) (size : Nat) : Fetch :=
  let span := c.span 0 size
  { token := ⟨kind, c.line, span⟩
    report :=
      if kind = .ident ∧ ¬ Utf8.isValid (c.rest.take size) then
        some (.error .unknownCharacter span "invalid UTF-8 encoding in identifier")
      else none
    cursor := c.skip size }

/-- The token at a cursor that stands before no trivia. -/
def fetchHere (c : Cursor) : Fetch :=
  if c.rest = [] then { token := c.endToken, cursor := c }
  else
    match Lexeme.read c.rest with
    | .token kind size => c.take kind size
    | .raw lead size total =>
      { token := ⟨.rawLit, c.line + lineFeeds (c.rest.take lead), c.span lead size⟩
        cursor := c.skip total }
    | .openString => c.unclosed .openString "unterminated string"
    | .openRaw => c.unclosed .openRawLiteral "unterminated raw literal"

/-- The next token. -/
def fetch (c : Cursor) : Fetch := c.skipTrivia.fetchHere

theorem length_rest_fetchHere (c : Cursor) (h : c.rest ≠ []) :
    c.fetchHere.cursor.rest.length < c.rest.length := by
  have hpos := Lexeme.size_read_pos h
  have hlen : 0 < c.rest.length := List.length_pos_iff.2 h
  rw [fetchHere, if_neg h]
  split <;> rename_i heq <;> rw [heq, Lexeme.size] at hpos
  · simp only [take, length_rest_skip]; omega
  · simp only [length_rest_skip]; omega
  · simp only [unclosed, length_rest_skip]; omega
  · simp only [unclosed, length_rest_skip]; omega

/-- Unless the input has ended, fetching leaves fewer bytes. -/
theorem length_rest_fetch (c : Cursor) (h : c.fetch.token.kind ≠ .endOfInput) :
    c.fetch.cursor.rest.length < c.rest.length := by
  by_cases hr : c.skipTrivia.rest = []
  · exact absurd (by rw [fetch, fetchHere, if_pos hr]; rfl) h
  · have h₁ := c.skipTrivia.length_rest_fetchHere hr
    have h₂ : c.skipTrivia.rest.length ≤ c.rest.length := by
      rw [skipTrivia, length_rest_skip]; omega
    exact Nat.lt_of_lt_of_le h₁ h₂

/-- Every token from here to the end of the input, which is the last. -/
def fetchAll (c : Cursor) : List Fetch :=
  if _h : c.fetch.token.kind = .endOfInput then [c.fetch]
  else c.fetch :: c.fetch.cursor.fetchAll
termination_by c.rest.length
decreasing_by exact c.length_rest_fetch _h

end Cursor

/-- The tokens of a content and what was reported while reading them. -/
structure Lexed where
  tokens : List Token
  reports : List Diagnostic
deriving DecidableEq, Repr

/-- Read a whole content.  The last token marks the end of the input. -/
def tokenize (file : FileId) (content : Text) : Lexed :=
  let fetched := (Cursor.start file content).fetchAll
  ⟨fetched.map (·.token), fetched.filterMap (·.report)⟩

/-- Reading one token at a time, with at most one token read ahead. -/
structure Lexer where
  cursor : Cursor
  ahead : Option Token := none
  /-- What was reported so far. -/
  reports : List Diagnostic := []

namespace Lexer

/-- A lexer at the start of a content. -/
def start (file : FileId) (content : Text) : Lexer := { cursor := .start file content }

/-- Fetch a token from the cursor. -/
def pull (lx : Lexer) : Token × Lexer :=
  let f := lx.cursor.fetch
  (f.token, { lx with cursor := f.cursor, reports := lx.reports ++ f.report.toList })

/-- The next token.  After the end of the input it stays at the end. -/
def next (lx : Lexer) : Token × Lexer :=
  match lx.ahead with
  | some t => (t, { lx with ahead := none })
  | none => lx.pull

/-- The next token, which stays in place. -/
def peek (lx : Lexer) : Token × Lexer :=
  match lx.ahead with
  | some t => (t, lx)
  | none =>
    let (t, lx) := lx.pull
    (t, { lx with ahead := some t })

end Lexer
end Tarjuman
