/-
# Token streams

The shape that a stream of tokens read from one content has: it ends with the
only end-of-input token, start offsets grow strictly, every span lies in the
content, only raw literals and the end are empty, and lines never go back.
`TokenStream.fault?` finds the first place where a stream breaks these rules.
-/

import Tarjuman.Token.Basic

namespace Tarjuman
namespace TokenStream

/-- A way in which a list of tokens is no token stream. -/
inductive Fault where
  | noFile
  | empty
  | noEnd (last : Kind)
  | earlyEnd (index : Nat)
  | otherFile (index : Nat) (got want : FileId)
  | outside (index : Nat) (span : Span) (size : Nat)
  | emptySpan (index : Nat) (kind : Kind)
  | notAfter (index : Nat) (start previous : UInt32)
  | lineBack (index : Nat) (line previous : UInt32)
deriving DecidableEq, Repr

namespace Fault

/-- What to say about the fault. -/
def message : Fault → Text
  | noFile => "nil file"
  | empty => "empty token stream"
  | noEnd last => "last token is " ++ last.name ++ ", want EOF"
  | earlyEnd i => "EOF at index " ++ Text.ofNat i ++ " before end of stream"
  | otherFile i got want =>
    "token " ++ Text.ofNat i ++ " span file mismatch: got=" ++ Text.ofNat got.toNat ++
      " want=" ++ Text.ofNat want.toNat
  | outside i span size =>
    "token " ++ Text.ofNat i ++ " span " ++ span.render ++ " outside content of " ++
      Text.ofNat size ++ " bytes"
  | emptySpan i kind => "token " ++ Text.ofNat i ++ " (" ++ kind.name ++ ") has empty span"
  | notAfter i start previous =>
    "token " ++ Text.ofNat i ++ " starts at " ++ Text.ofNat start.toNat ++ ", not after " ++
      Text.ofNat previous.toNat
  | lineBack i line previous =>
    "token " ++ Text.ofNat i ++ " line " ++ Text.ofNat line.toNat ++ " goes back from " ++
      Text.ofNat previous.toNat

end Fault

/-- The first fault of one token, `isLast` being its place in the stream and
`previous` the token before it. -/
def tokenFault? (file : FileId) (size index : Nat) (isLast : Bool) (previous : Option Token)
    (t : Token) : Option Fault :=
  let lineBefore := (previous.map (·.line)).getD 1
  if t.kind = .endOfInput ∧ !isLast then some (.earlyEnd index)
  else if t.span.file ≠ file then some (.otherFile index t.span.file file)
  else if t.span.start > t.span.stop ∨ t.span.stop.toNat > size then
    some (.outside index t.span size)
  else if t.span.isEmpty ∧ t.kind ≠ .endOfInput ∧ t.kind ≠ .rawLit then
    some (.emptySpan index t.kind)
  else
    match previous with
    | some p =>
      if t.span.start ≤ p.span.start then some (.notAfter index t.span.start p.span.start)
      else if t.line < lineBefore then some (.lineBack index t.line lineBefore)
      else none
    | none => if t.line < lineBefore then some (.lineBack index t.line lineBefore) else none

/-- The first fault of the tokens from number `index` on. -/
def faultFrom? (file : FileId) (size : Nat) :
    (index : Nat) → (previous : Option Token) → List Token → Option Fault
  | _, _, [] => none
  | index, previous, t :: r =>
    match tokenFault? file size index r.isEmpty previous t with
    | some f => some f
    | none => faultFrom? file size (index + 1) (some t) r

/-- The first fault of a list of tokens that should be read from `content`. -/
def fault? (file : FileId) (content : Text) (toks : List Token) : Option Fault :=
  match toks.getLast? with
  | none => some .empty
  | some last =>
    if last.kind ≠ .endOfInput then some (.noEnd last.kind)
    else faultFrom? file content.length 0 none toks

end TokenStream
end Tarjuman
