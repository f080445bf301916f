/-
# Transpiling

From a content and its tokens to a script: the statements are read, written one
by one, and what was reported is gathered, each finding once.
-/

import Tarjuman.Diagnostic.Reporter
import Tarjuman.Script.Writer
import Tarjuman.Token.Lexer

namespace Tarjuman

/-- A script and what was found while writing it. -/
structure Script where
  /-- One fragment for each statement, in the order of the source. -/
  fragments : List Text
  /-- What was reported, each finding once. -/
  reports : List Diagnostic
  /-- The names that were bound. -/
  names : Names

namespace Script

/-- The fragments that are not empty, with `sep` between them. -/
def render (fragments : List Text) (sep : Text) : Text :=
  Text.join sep (fragments.filter (!·.isEmpty))

end Script

mutual
/-- Reading the operand never ends. -/
def Operand.isEndless : Operand → Bool
  | .call _ args => args.isEndless
  | _ => false
/-- Reading the expression never ends. -/
def Expr.isEndless : Expr → Bool
  | .single l => l.isEndless
  | .binary l _ r => l.isEndless || r.isEndless
/-- Reading the arguments never ends. -/
def Arguments.isEndless : Arguments → Bool
  | .done c => c = .endless
  | .more e rest => e.isEndless || rest.isEndless
end

/-- Reading the condition never ends. -/
def Condition.isEndless : Condition → Bool
  | .plain e => e.isEndless
  | .compare l _ r => l.isEndless || r.isEndless

/-- Reading the statement never ends. -/
def Statement.isEndless : Statement → Bool
  | .declare _ _ e | .print e | .assign _ e | .giveBack (some e) => e.isEndless
  | .call c => c.isEndless
  | .whileLoop _ c | .ifBranch _ c => c.isEndless
  | _ => false

/-- Write the script for a list of tokens.  `file` numbers the file they come
from and `content` is what it holds, if there is one. -/
def transpile (file : FileId) (content : Option Text) (style : Style) (ts : List Token) : Script :=
  let ts := TokenList.ofList file ts
  let written := Desk.writeAll ⟨content, ts.finish⟩ style {} ts.statements
  { fragments := (if style.prelude then [Style.openingBanner] else []) ++ written.map (·.fragment)
    reports := Diagnostic.distinct (written.flatMap (·.reports))
    names := (written.getLast?.map (·.desk.names)).getD {} }

/-- Reading the tokens never ends.  Tokens that were read from a text always end. -/
def isEndless (file : FileId) (ts : List Token) : Bool :=
  (TokenList.ofList file ts).statements.any (·.statement.isEndless)

/-- The script for a list of tokens, unless reading them never ends. -/
def transpile? (file : FileId) (content : Option Text) (style : Style) (ts : List Token) :
    Option Script :=
  if isEndless file ts then none else some (transpile file content style ts)

/-- Write statements one after the other and send what is found to a reporter. -/
def Desk.writeTo {σ : Type} (r : Reporter σ) (src : Source.Tokens) (style : Style) (desk : Desk)
    (s : σ) : List Placed → List Text × σ
  | [] => ([], s)
  | p :: rest =>
    let w := desk.write src style p.statement
    let (fragments, s) := writeTo r src style w.desk (r.reportAll s w.reports) rest
    (w.fragment :: fragments, s)

/-- What a run hands over. -/
structure Delivery (σ : Type) where
  fragments : List Text
  /-- What was reported, up to the limit. -/
  bag : Bag
  /-- What another reporter has made of what was reported. -/
  extra : σ

/-- Write the script for a list of tokens.  Each finding is reported once, to a bag with
a limit and to another reporter. -/
def transpileTo {σ : Type} (extra : Reporter σ) (s : σ) (limit : Int) (file : FileId)
    (content : Option Text) (style : Style) (ts : List Token) : Delivery σ :=
  let ts := TokenList.ofList file ts
  let (fragments, _, bag, extra) :=
    Desk.writeTo (Reporter.bag.tee extra).once ⟨content, ts.finish⟩ style {} ([], .new limit, s)
      ts.statements
  { fragments := (if style.prelude then [Style.openingBanner] else []) ++ fragments, bag, extra }

/-- The same unless reading the tokens never ends. -/
def transpileTo? {σ : Type} (extra : Reporter σ) (s : σ) (limit : Int) (file : FileId)
    (content : Option Text) (style : Style) (ts : List Token) : Option (Delivery σ) :=
  if isEndless file ts then none else some (transpileTo extra s limit file content style ts)

end Tarjuman
