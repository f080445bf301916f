/-
# Reading TOML

`read?` turns a text into statements.  It refuses everything that is not TOML and
says no more about it.

Strings are read byte by byte; a count of bytes that were looked at already is
passed over, so that every reader goes down its text.  Readers of what may be nested
or repeated take as many rounds as the text has bytes, and each round uses up at
least one.
-/

import Tarjuman.Text.Quoted
import Tarjuman.Toml.Plain
import Tarjuman.Toml.Syntax

namespace Tarjuman
namespace Toml

/-- A blank within a line. -/
def isBlank (b : UInt8) : Bool := b == 0x20 || b == 0x09

/-- The byte ends a line. -/
def isBreak (b : UInt8) : Bool := b == 0x0A || b == 0x0D

/-- The byte may stand in a key without quotes. -/
def isBare (b : UInt8) : Bool :=
  Text.isDigitByte b || (0x41 ≤ b && b ≤ 0x5A) || (0x61 ≤ b && b ≤ 0x7A) ||
    b == Text.byte '_' || b == Text.byte '-'

/-- The text behind its blanks. -/
def afterBlanks (s : Text) : Text := s.dropWhile isBlank

/-- The text behind blanks, line ends and comments; `comment` says that it starts
within a comment. -/
def afterLinesFrom (comment : Bool) : Text → Text
  | [] => []
  | b :: r =>
    if isBreak b then afterLinesFrom false r
    else if comment || isBlank b then afterLinesFrom comment r
    else if b == Text.byte '#' then afterLinesFrom true r
    else b :: r

/-- The text behind blanks, line ends and comments. -/
def afterLines (s : Text) : Text := afterLinesFrom false s

/-- What the text behind a backslash stands for, and how many of its bytes belong to
the escape. -/
def escape? (s : Text) : Option (Text × Nat) :=
  match s with
  | [] => none
  | b :: r =>
    let one (n : UInt8) : Option (Text × Nat) := some ([n], 1)
    let coded (digits : Nat) : Option (Text × Nat) :=
      if (r.take digits).length = digits then
        (Quoted.codePoint? (r.take digits)).map (·, digits + 1)
      else none
    if b == Text.byte 'b' then one 0x08
    else if b == Text.byte 't' then one 0x09
    else if b == Text.byte 'n' then one 0x0A
    else if b == Text.byte 'f' then one 0x0C
    else if b == Text.byte 'r' then one 0x0D
    else if b == Text.byte '"' || b == Text.byte '\\' then one b
    else if b == Text.byte 'u' then coded 4
    else if b == Text.byte 'U' then coded 8
    else none

/-- A text in front of what a reader found. -/
def onto (s : Text) (found : Option (Text × Text)) : Option (Text × Text) :=
  found.map fun (t, rest) => (s ++ t, rest)

/-- The inside of a string on one line and what follows its closing quote. -/
def stringFrom (quote : UInt8) : (skip : Nat) → Text → Option (Text × Text)
  | _, [] => none
  | k + 1, _ :: r => stringFrom quote k r
  | 0, b :: r =>
    if b == quote then some ([], r)
    else if isBreak b then none
    else if b == Text.byte '\\' && quote == Text.byte '"' then
      match escape? r with
      | some (t, n) => onto t (stringFrom quote n r)
      | none => none
    else onto [b] (stringFrom quote 0 r)

/-- The length of the blanks and line ends at the front, if there is a line end
among them. -/
def foldedLines? (s : Text) : Option Nat :=
  let gap := s.takeWhile fun b => isBlank b || isBreak b
  if gap.contains 0x0A then some gap.length else none

/-- The inside of a string over several lines and what follows its closing quotes.
Three quotes close it, and up to two more in front of them belong to it.  Between
double quotes a backslash at the end of a line takes away all blanks and line ends
that follow. -/
def linesFrom (quote : UInt8) : (skip : Nat) → Text → Option (Text × Text)
  | _, [] => none
  | k + 1, _ :: r => linesFrom quote k r
  | 0, b :: r =>
    if b == quote then
      let quotes := ((b :: r).takeWhile (· == quote)).length
      if quotes < 3 then onto [b] (linesFrom quote 0 r)
      else if 5 < quotes then none
      else some (List.replicate (quotes - 3) quote, (b :: r).drop quotes)
    else if b == Text.byte '\\' && quote == Text.byte '"' then
      match foldedLines? r with
      | some n => linesFrom quote n r
      | none =>
        match escape? r with
        | some (t, n) => onto t (linesFrom quote n r)
        | none => none
    else onto [b] (linesFrom quote 0 r)

/-- The text without a line end at its front. -/
def withoutBreak (s : Text) : Text :=
  match s with
  | 0x0A :: r => r
  | 0x0D :: 0x0A :: r => r
  | _ => s

/-- The byte opens a string. -/
def isQuote (b : UInt8) : Bool := b == Text.byte '"' || b == Text.byte '\''

/-- A string of any form that starts with the quote in front of `s`. -/
def string? (quote : UInt8) (s : Text) : Option (Text × Text) :=
  match s with
  | b :: c :: r =>
    if b == quote && c == quote then linesFrom quote 0 (withoutBreak r) else stringFrom quote 0 s
  | _ => stringFrom quote 0 s

/-- One part of a key. -/
def keyPart? (s : Text) : Option (Text × Text) :=
  match s with
  | [] => none
  | b :: r =>
    if isQuote b then stringFrom b 0 r
    else if isBare b then some (s.takeWhile isBare, s.dropWhile isBare)
    else none

/-- A key of at most `rounds` parts and what follows it, blanks left out. -/
def key? : (rounds : Nat) → Text → Option (Key × Text)
  | 0, _ => none
  | n + 1, s =>
    match keyPart? (afterBlanks s) with
    | none => none
    | some (part, rest) =>
      match afterBlanks rest with
      | [] => some ([part], [])
      | b :: r =>
        if b == Text.byte '.' then (key? n r).map fun (parts, rest) => (part :: parts, rest)
        else some ([part], b :: r)

/-- A key, an equals sign, and what follows the blanks behind it. -/
def keyAndSign? (s : Text) : Option (Key × Text) :=
  match key? (s.length + 1) s with
  | some (key, b :: r) => if b == Text.byte '=' then some (key, afterBlanks r) else none
  | _ => none

mutual

/-- A value and what follows it. -/
def value? : (rounds : Nat) → Text → Option (Value × Text)
  | 0, _ => none
  | _ + 1, [] => none
  | n + 1, b :: r =>
    if b == Text.byte '[' then (items? n r).map fun (vs, rest) => (.array vs, rest)
    else if b == Text.byte '\x7b' then
      match afterBlanks r with
      | [] => none
      | c :: r' =>
        if c == Text.byte '\x7d' then some (.table [], r')
        else (pairs? n (c :: r')).map fun (ps, rest) => (.table ps, rest)
    else if isQuote b then (string? b r).map fun (t, rest) => (.text t, rest)
    else
      match Text.after? (b :: r) "true", Text.after? (b :: r) "false" with
      | some rest, _ => some (.truth true, rest)
      | _, some rest => some (.truth false, rest)
      | none, none => (Plain.after? (b :: r)).map fun rest => (.plain, rest)

/-- The items of an array and what follows its closing bracket. -/
def items? : (rounds : Nat) → Text → Option (List Value × Text)
  | 0, _ => none
  | n + 1, s =>
    match afterLines s with
    | [] => none
    | b :: r =>
      if b == Text.byte ']' then some ([], r)
      else
        match value? n (b :: r) with
        | none => none
        | some (v, rest) =>
          match afterLines rest with
          | [] => none
          | c :: rest =>
            if c == Text.byte ',' then (items? n rest).map fun (vs, rest) => (v :: vs, rest)
            else if c == Text.byte ']' then some ([v], rest)
            else none

/-- The pairs of a table in braces, of which there is one at least, and what follows
its closing brace. -/
def pairs? : (rounds : Nat) → Text → Option (List (Key × Value) × Text)
  | 0, _ => none
  | n + 1, s =>
    match keyAndSign? s with
    | none => none
    | some (key, rest) =>
      match value? n rest with
      | none => none
      | some (v, rest) =>
        match afterBlanks rest with
        | [] => none
        | c :: rest =>
          if c == Text.byte ',' then (pairs? n rest).map fun (ps, rest) => ((key, v) :: ps, rest)
          else if c == Text.byte '\x7d' then some ([(key, v)], rest)
          else none

end

/-- A header: a key and the text that closes it. -/
def header? (closing s : Text) : Option (Key × Text) :=
  match key? (s.length + 1) s with
  | some (key, rest) => (Text.after? rest closing).map (key, ·)
  | none => none

/-- A statement and what follows it. -/
def statement? (s : Text) : Option (Statement × Text) :=
  match Text.after? s "[[", Text.after? s "[" with
  | some r, _ => (header? "]]" r).map fun (key, rest) => (.element key, rest)
  | none, some r => (header? "]" r).map fun (key, rest) => (.header key, rest)
  | none, none =>
    match keyAndSign? s with
    | some (key, rest) => (value? (s.length + 1) rest).map fun (v, rest) => (.pair key v, rest)
    | none => none

/-- Nothing but blanks and a comment stands before the end of the line. -/
def endsLine (s : Text) : Bool :=
  match afterBlanks s with
  | [] => true
  | b :: _ => isBreak b || b == Text.byte '#'

/-- At most `rounds` statements, each on a line of its own. -/
def statements? : (rounds : Nat) → Text → Option (List Statement)
  | 0, _ => none
  | n + 1, s =>
    match afterLines s with
    | [] => some []
    | s =>
      match statement? s with
      | none => none
      | some (st, rest) =>
        if endsLine rest then (statements? n rest).map (st :: ·) else none

/-- The byte is a control code that no text may hold. -/
def isControl (b : UInt8) : Bool :=
  (b < 0x20 && b != 0x09 && !isBreak b) || b == 0x7F

/-- No carriage return stands alone. -/
def returnsPaired : Text → Bool
  | [] => true
  | b :: r => (b != 0x0D || r.head? == some 0x0A) && returnsPaired r

/-- The text may be read at all: it is UTF-8 without U+FFFD, and without control codes
other than tabs and line ends. -/
def isPlainText (s : Text) : Bool :=
  (Utf8.items s).all (· matches .char _) && !(Utf8.chars s).contains Utf8.replacement &&
    !s.any isControl && returnsPaired s

/-- Marks of a byte order, which may stand in front. -/
def byteOrderMarks : List Text := [[0xFF, 0xFE], [0xFE, 0xFF], [0xEF, 0xBB, 0xBF]]

/-- The text behind a mark of its byte order. -/
def withoutMark (s : Text) : Text := ((byteOrderMarks.findSome? (Text.after? s)).getD s)

/-- The statements of a text. -/
def read? (s : Text) : Option (List Statement) :=
  let s := withoutMark s
  if isPlainText s then statements? (s.length + 1) s else none

end Toml
end Tarjuman
