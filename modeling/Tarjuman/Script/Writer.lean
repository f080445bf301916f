/-
# From statements to script text

Each statement becomes one fragment of script, which is empty when the statement
says nothing or is not whole.  Writing resolves names, checks that blocks nest and
collects what there is to report, in the order of the source.
-/

import Tarjuman.Diagnostic.Basic
import Tarjuman.Script.Block
import Tarjuman.Script.Latin
import Tarjuman.Script.Names
import Tarjuman.Script.Reader
import Tarjuman.Text.Quoted

namespace Tarjuman

/-- How a script is written. -/
structure Style where
  /-- The spelling of a bound name. -/
  rename : Text → Text := id
  /-- The end of the input is marked. -/
  banner : Bool := true
  /-- The start of the script is marked. -/
  prelude : Bool := false
  /-- Ends and elses have to match an open block. -/
  strict : Bool := true

namespace Style

/-- The first fragment of a script whose start is marked. -/
def openingBanner : Text := "/* START OF LANGUAGE BUFFER */\n\n"

/-- The last fragment of a script whose end is marked. -/
def closingBanner : Text := "\n\n/* END OF LANGUAGE BUFFER */"

end Style

/-- What writing needs to know of the source. -/
structure Source.Tokens where
  /-- The content, if there is a file. -/
  content : Option Text
  /-- The token at the end of the input. -/
  finish : Token

namespace Source.Tokens

/-- The text of a token. -/
def text (src : Source.Tokens) (t : Token) : Text :=
  match src.content with
  | some content => t.text content
  | none => []

/-- The token that was found, or the end of the input. -/
def found (src : Source.Tokens) (t : Option Token) : Token := t.getD src.finish

/-- Report a token that is not of the kind it should be. -/
def misplaced (src : Source.Tokens) (m : Misplaced) : Diagnostic :=
  let t := src.found m.found
  if m.expected = [.ident] then
    .error .expectIdentifier t.span ("expected identifier, found " ++ t.kind.name.quoted)
  else
    .error .unexpectedToken t.span
      ("Invalid token, expected " ++ (Text.join " or " (m.expected.map (·.name))).quoted ++
        " but found " ++ t.kind.name.quoted)

/-- Report a token that starts no operand. -/
def noOperand (src : Source.Tokens) (found : Option Token) : Diagnostic :=
  let t := src.found found
  .error .expectOperand t.span
    ("expected identifier or number, found " ++ t.kind.name.quoted)

end Source.Tokens

/-- Text that was written, if all went well, and what was reported meanwhile. -/
structure Draft where
  text : Option Text
  reports : List Diagnostic := []
deriving Repr

/-- A number in the notation of the script: a point for the comma, Western
digits. -/
def scriptNumber (s : Text) : Text :=
  (Utf8.chars s).flatMap fun c =>
    if c = ',' then [Text.byte '.']
    else
      match Latin.arabicDigit? c with
      | some d => [Text.digit d]
      | none => Utf8.encode c

/-- The names that can be referred to while an expression is written. -/
structure Lexicon where
  source : Source.Tokens
  names : Names

namespace Lexicon

/-- The spelling of a name that is referred to; an unbound one is reported and
written as it stands. -/
def resolve (lx : Lexicon) (t : Token) : Text × List Diagnostic :=
  let raw := lx.source.text t
  match lx.names.lookup raw with
  | some spelling => (spelling, [])
  | none => (raw, [.error .unboundIdentifier t.span ("unbound identifier " ++ raw.quoted)])

/-- The script text of a literal. -/
def literal (lx : Lexicon) (t : Token) : Text :=
  match t.kind with
  | .numberLit => scriptNumber (lx.source.text t)
  | .kwTrue => "true"
  | .kwFalse => "false"
  | .kwNil => "null"
  | _ => lx.source.text t

mutual
/-- Write an operand. -/
def operand (lx : Lexicon) : Operand → Draft
  | .name t =>
    let (spelling, reports) := lx.resolve t
    ⟨some spelling, reports⟩
  | .literal t => ⟨some (lx.literal t), []⟩
  | .call name args =>
    let (spelling, reports) := lx.resolve name
    let (texts, more) := lx.arguments args
    match args.closing with
    | .closed => ⟨some (spelling ++ "(" ++ Text.join "," texts ++ ")"), reports ++ more⟩
    | _ => ⟨none, reports ++ more⟩
  | .missing found => ⟨none, [lx.source.noOperand found]⟩
/-- Write an expression. -/
def expr (lx : Lexicon) : Expr → Draft
  | .single l => lx.operand l
  | .binary l op r =>
    let left := lx.operand l
    let right := lx.operand r
    let reports := left.reports ++ right.reports
    match left.text, right.text with
    | some a, some b => ⟨some ("(" ++ a ++ " " ++ op.operatorText ++ " " ++ b ++ ")"), reports⟩
    | _, _ => ⟨none, reports⟩
/-- Write arguments; those that are not whole are left out. -/
def arguments (lx : Lexicon) : Arguments → List Text × List Diagnostic
  | .done (.missing found) => ([], [lx.source.misplaced ⟨[.rparen], found⟩])
  | .done _ => ([], [])
  | .more e rest =>
    let first := lx.expr e
    let (texts, reports) := lx.arguments rest
    (first.text.toList ++ texts, first.reports ++ reports)
end

/-- Write a condition. -/
def condition (lx : Lexicon) : Condition → Draft
  | .plain e => lx.expr e
  | .compare l op r =>
    let left := lx.expr l
    let right := lx.expr r
    let reports := left.reports ++ right.reports
    match left.text, right.text with
    | some a, some b => ⟨some (a ++ " " ++ op.operatorText ++ " " ++ b), reports⟩
    | _, _ => ⟨none, reports⟩

end Lexicon

/-- What writing carries from one statement to the next. -/
structure Desk where
  names : Names := {}
  /-- The open blocks, the innermost first. -/
  blocks : List Block := []
deriving Repr

/-- A statement after it was written. -/
structure Written where
  fragment : Text := []
  reports : List Diagnostic := []
  desk : Desk

namespace Desk

/-- Bind a declared name.  `warn` says whether to report that it was declared
before. -/
def bind (src : Source.Tokens) (style : Style) (warn : Bool) (desk : Desk) (t : Token) :
    Text × List Diagnostic × Desk :=
  let (b, names) := desk.names.bind style.rename (src.text t)
  let redeclared :=
    if b.redeclared && warn then
      [Diagnostic.warning .redeclared t.span
        (b.raw.quoted ++ " is already declared; the new declaration replaces it")]
    else []
  let clash :=
    match b.clash with
    | some other =>
      [Diagnostic.warning .renameCollision t.span
        (other.quoted ++ " and " ++ b.raw.quoted ++ " are both emitted as " ++ b.spelling.quoted)]
    | none => []
  (b.spelling, redeclared ++ clash, { desk with names })

/-- Bind the parameters of a function in order. -/
def bindParams (src : Source.Tokens) (style : Style) (desk : Desk) :
    List Token → List Text × List Diagnostic × Desk
  | [] => ([], [], desk)
  | t :: r =>
    let (spelling, reports, desk) := desk.bind src style false t
    let (spellings, more, desk) := bindParams src style desk r
    (spelling :: spellings, reports ++ more, desk)

/-- Open a block. -/
def push (desk : Desk) (kind : BlockKind) (keyword : Token) : Desk :=
  { desk with blocks := ⟨kind, keyword.span⟩ :: desk.blocks }

/-- A statement with an expression in it: nothing is written unless the
expression is whole. -/
def wrap (desk : Desk) (d : Draft) (f : Text → Text) : Written :=
  { fragment := (d.text.map f).getD [], reports := d.reports, desk }

/-- Write the declaration of a variable.  The name is bound only after its
value was written. -/
def declare (src : Source.Tokens) (style : Style) (desk : Desk) (name : Token) (quoted : Bool)
    (value : Expr) : Written :=
  let d := Lexicon.expr ⟨src, desk.names⟩ value
  match d.text with
  | none => { reports := d.reports, desk }
  | some text =>
    let (spelling, reports, desk) := desk.bind src style true name
    let value := if quoted then text.quoted else text
    { fragment := "let " ++ spelling ++ " = (" ++ value ++ ");"
      reports := d.reports ++ reports
      desk }

/-- Write the head of a function.  Its block is open and its names are bound
even if the head is not whole. -/
def function (src : Source.Tokens) (style : Style) (desk : Desk) (keyword : Token)
    (name : Option Token) (params : List Token) (fault : Option Misplaced) : Written :=
  let desk := desk.push .function keyword
  let faults := fault.toList.map src.misplaced
  match name with
  | none => { reports := faults, desk }
  | some name =>
    let (spelling, reports, desk) := desk.bind src style true name
    let (spellings, more, desk) := desk.bindParams src style params
    { fragment :=
        if fault.isSome then []
        else "function " ++ spelling ++ " (" ++ Text.join "," spellings ++ ") \x7b"
      reports := reports ++ more ++ faults
      desk }

/-- Close the innermost block. -/
def close (style : Style) (desk : Desk) (keyword : Token) : Written :=
  match desk.blocks with
  | _ :: outer => { fragment := "\x7d", desk := { desk with blocks := outer } }
  | [] =>
    if style.strict then
      { reports := [.error .unmatchedEnd keyword.span "end without an open block"], desk }
    else { fragment := "\x7d", desk }

/-- Go on with the other branch of a condition. -/
def otherwise (style : Style) (desk : Desk) (keyword : Token) : Written :=
  match desk.blocks with
  | ⟨.ifBranch, opened⟩ :: outer =>
    { fragment := "\x7d else \x7b", desk := { desk with blocks := ⟨.elseBranch, opened⟩ :: outer } }
  | _ =>
    if style.strict then
      { reports := [.error .elseWithoutIf keyword.span "else without a matching if"], desk }
    else { fragment := "\x7d else \x7b", desk }

/-- Finish the script; blocks that are still open are reported, the innermost
first. -/
def finish (src : Source.Tokens) (style : Style) (desk : Desk) : Written :=
  { fragment := if style.banner then Style.closingBanner else []
    reports :=
      if style.strict then
        desk.blocks.map fun b =>
          (Diagnostic.error .unclosedBlock src.finish.span
            (b.kind.name ++ " block is not closed")).withNote b.opened "opened here"
      else []
    desk := { desk with blocks := [] } }

/-- Write one statement. -/
def write (src : Source.Tokens) (style : Style) (desk : Desk) : Statement → Written
  | .declare name quoted value => desk.declare src style name quoted value
  | .print value =>
    desk.wrap (Lexicon.expr ⟨src, desk.names⟩ value) fun v => "console.log(" ++ v ++ ");"
  | .function keyword name params fault => desk.function src style keyword name params fault
  | .call callee => desk.wrap (Lexicon.operand ⟨src, desk.names⟩ callee) id
  | .assign name value =>
    let (spelling, reports) := Lexicon.resolve ⟨src, desk.names⟩ name
    let d := Lexicon.expr ⟨src, desk.names⟩ value
    desk.wrap { d with reports := reports ++ d.reports } fun v => spelling ++ " = (" ++ v ++ ");"
  | .raw t => { fragment := src.text t, desk }
  | .close keyword => desk.close style keyword
  | .whileLoop keyword c =>
    (desk.push .whileLoop keyword).wrap (Lexicon.condition ⟨src, desk.names⟩ c)
      fun v => "while(" ++ v ++ ") \x7b"
  | .ifBranch keyword c =>
    (desk.push .ifBranch keyword).wrap (Lexicon.condition ⟨src, desk.names⟩ c)
      fun v => "if(" ++ v ++ ") \x7b"
  | .elseBranch keyword => desk.otherwise style keyword
  | .giveBack none => { fragment := "return;", desk }
  | .giveBack (some value) =>
    desk.wrap (Lexicon.expr ⟨src, desk.names⟩ value) fun v => "return " ++ v ++ ";"
  | .forLoop _ => { desk }
  | .classHead keyword =>
    { reports := [.warning .unsupported keyword.span "class declarations are not supported"],
      desk }
  | .broken fault => { reports := [src.misplaced fault], desk }
  | .stray t => { reports := [.error .invalidStatement t.span "Invalid start to statement."], desk }
  | .finish => desk.finish src style

/-- Write statements one after the other. -/
def writeAll (src : Source.Tokens) (style : Style) (desk : Desk) : List Placed → List Written
  | [] => []
  | p :: r =>
    let w := desk.write src style p.statement
    w :: writeAll src style w.desk r

end Desk
end Tarjuman
