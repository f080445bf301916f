/-
# From tokens to statements

Reading statements from left to right with one token of lookahead.  Each reader
takes the tokens that are left and gives back those that it leaves, never more
than it got.  A token that should have been another is passed over.

Nothing behind the first end-of-input token is ever read, with one exception: an
argument list that fails at that token looks at the one after it, and if that is
a comma it goes on looking at the two for ever (`Closing.endless`).
-/

import Tarjuman.Script.Syntax

namespace Tarjuman

/-- What was read from the head of `ts`, and the tokens that are left. -/
structure Reading (α : Type) (ts : List Token) where
  value : α
  rest : List Token
  le : rest.length ≤ ts.length

namespace Reading

/-- The value changed, the tokens left as they are. -/
def map {α β : Type} {ts : List Token} (f : α → β) (r : Reading α ts) : Reading β ts :=
  ⟨f r.value, r.rest, r.le⟩

/-- The same reading with more tokens in front. -/
def after {α : Type} {ts : List Token} (t : Token) (r : Reading α ts) : Reading α (t :: ts) :=
  ⟨r.value, r.rest, Nat.le_succ_of_le r.le⟩

end Reading

/-- The tokens of a source made ready for reading. -/
structure TokenList where
  /-- The tokens before the end of the input. -/
  body : List Token
  /-- The token that stands for the end of the input. -/
  finish : Token
  /-- A comma follows the end of the input. -/
  trap : Bool

namespace TokenList

/-- The end of the input behind a list of tokens that lacks one. -/
def impliedEnd (file : FileId) (ts : List Token) : Token :=
  match ts.getLast? with
  | some last => ⟨.endOfInput, last.line, .point last.span.file last.span.stop⟩
  | none => ⟨.endOfInput, 1, .point file 0⟩

/-- Cut a list of tokens at its first end of input. -/
def ofList (file : FileId) (ts : List Token) : TokenList :=
  let body := ts.takeWhile (·.kind ≠ .endOfInput)
  match ts.drop body.length with
  | [] => ⟨body, impliedEnd file ts, false⟩
  | finish :: after => ⟨body, finish, (after.head?.map (·.kind)) == some .comma⟩

end TokenList

mutual
/-- Read one operand; a name with a parenthesis after it is a call. -/
def readOperand (trap : Bool) (ts : List Token) : Reading Operand ts :=
  match ts with
  | [] => ⟨.missing none, [], Nat.le_refl _⟩
  | t :: r =>
    match t.kind with
    | .ident =>
      match r with
      | [] => ⟨.name t, [], by simp⟩
      | p :: r =>
        have : r.length < (t :: p :: r).length :=
          Nat.lt_succ_of_le (Nat.le_succ r.length)
        if p.kind = .lparen then ((readArguments trap r).map (.call t)).after p |>.after t
        else ⟨.name t, p :: r, by simp⟩
    | .stringLit | .numberLit | .kwTrue | .kwFalse | .kwNil => ⟨.literal t, r, by simp⟩
    | _ => ⟨.missing (some t), r, by simp⟩
termination_by (ts.length, 0)

/-- Read the arguments behind the opening parenthesis of a call. -/
def readArguments (trap : Bool) (ts : List Token) : Reading Arguments ts :=
  match ts with
  | [] => readArgument trap []
  | c :: r => if c.kind = .rparen then ⟨.done .closed, r, by simp⟩ else readArgument trap (c :: r)
termination_by (ts.length, 3)

/-- Read at least one argument and what follows it. -/
def readArgument (trap : Bool) (ts : List Token) : Reading Arguments ts :=
  match readExpr trap ts with
  | ⟨e, [], _⟩ =>
    let closing := if trap && e.failedAtEnd then .endless else .missing none
    ⟨.more e (.done closing), [], by simp⟩
  | ⟨e, c :: r, le⟩ =>
    have : r.length < ts.length := le
    if c.kind = .comma then
      let more := readArgument trap r
      ⟨.more e more.value, more.rest, by have := more.le; omega⟩
    else
      let closing := if c.kind = .rparen then .closed else .missing (some c)
      ⟨.more e (.done closing), r, by omega⟩
termination_by (ts.length, 2)

/-- Read an operand and at most one arithmetic operator with its right operand. -/
def readExpr (trap : Bool) (ts : List Token) : Reading Expr ts :=
  match readOperand trap ts with
  | ⟨left, [], _⟩ => ⟨.single left, [], by simp⟩
  | ⟨left, op :: r, le⟩ =>
    have : r.length < ts.length := le
    if left.isWhole ∧ op.kind.isArithmetic then
      let right := readOperand trap r
      ⟨.binary left op.kind right.value, right.rest, by have := right.le; omega⟩
    else ⟨.single left, op :: r, le⟩
termination_by (ts.length, 1)
end

/-- Read an expression and at most one comparison with a second expression. -/
def readCondition (trap : Bool) (ts : List Token) : Reading Condition ts :=
  match readExpr trap ts with
  | ⟨left, [], _⟩ => ⟨.plain left, [], by simp⟩
  | ⟨left, op :: r, le⟩ =>
    have : r.length < ts.length := le
    if left.isWhole ∧ op.kind.isComparison then
      let right := readExpr trap r
      ⟨.compare left op.kind right.value, right.rest, by have := right.le; omega⟩
    else ⟨.plain left, op :: r, le⟩

/-- Pass over a token that has to be of one kind. -/
def expect (kind : Kind) (ts : List Token) : Reading (Except Misplaced Token) ts :=
  match ts with
  | [] => ⟨.error ⟨[kind], none⟩, [], Nat.le_refl _⟩
  | t :: r => ⟨if t.kind = kind then .ok t else .error ⟨[kind], some t⟩, r, by simp⟩

/-- The kind of the next token. -/
def nextKind (ts : List Token) : Kind := (ts.head?.map (·.kind)).getD .endOfInput

/-- Read the parameters that follow the first one. -/
def readMoreParams (ts : List Token) : Reading (List Token × Option Misplaced) ts :=
  match ts with
  | [] => ⟨([], none), [], Nat.le_refl _⟩
  | c :: r =>
    if c.kind = .comma then
      match expect .ident r with
      | ⟨.error fault, rest, le⟩ => ⟨([], some fault), rest, Nat.le_succ_of_le le⟩
      | ⟨.ok p, rest, le⟩ =>
        let more := readMoreParams rest
        ⟨(p :: more.value.1, more.value.2), more.rest,
          Nat.le_succ_of_le (Nat.le_trans more.le le)⟩
    else ⟨([], none), c :: r, Nat.le_refl _⟩
termination_by ts.length
decreasing_by exact Nat.lt_succ_of_le le

/-- Read the parameters behind the opening parenthesis of a function's head. -/
def readParams (ts : List Token) : Reading (List Token × Option Misplaced) ts :=
  match ts with
  | [] => ⟨([], none), [], Nat.le_refl _⟩
  | p :: r =>
    if p.kind = .ident then
      ((readMoreParams r).map fun (ps, fault) => (p :: ps, fault)).after p
    else ⟨([], none), p :: r, Nat.le_refl _⟩

/-- Read the head of a function. -/
def readFunction (keyword : Token) (ts : List Token) : Reading Statement ts :=
  match expect .ident ts with
  | ⟨.error fault, rest, le⟩ => ⟨.function keyword none [] (some fault), rest, le⟩
  | ⟨.ok name, r₁, le₁⟩ =>
    match expect .lparen r₁ with
    | ⟨.error fault, rest, le⟩ =>
      ⟨.function keyword (some name) [] (some fault), rest, Nat.le_trans le le₁⟩
    | ⟨.ok _, r₂, le₂⟩ =>
      match readParams r₂ with
      | ⟨(params, some fault), rest, le⟩ =>
        ⟨.function keyword (some name) params (some fault), rest, by omega⟩
      | ⟨(params, none), r₃, le₃⟩ =>
        match expect .rparen r₃ with
        | ⟨.error fault, rest, le⟩ =>
          ⟨.function keyword (some name) params (some fault), rest, by omega⟩
        | ⟨.ok _, rest, le⟩ => ⟨.function keyword (some name) params none, rest, by omega⟩

/-- Read the declaration of a variable. -/
def readVariable (trap : Bool) (ts : List Token) : Reading Statement ts :=
  match expect .ident ts with
  | ⟨.error fault, rest, le⟩ => ⟨.broken fault, rest, le⟩
  | ⟨.ok name, r₁, le₁⟩ =>
    match expect .assign r₁ with
    | ⟨.error fault, rest, le⟩ => ⟨.broken fault, rest, Nat.le_trans le le₁⟩
    | ⟨.ok _, r₂, le₂⟩ =>
      let quoted := nextKind r₂ == .ident && nextKind r₂.tail != .lparen
      let value := readExpr trap r₂
      ⟨.declare name quoted value.value, value.rest, by have := value.le; omega⟩

/-- Read what is to be printed. -/
def readPrint (trap : Bool) (ts : List Token) : Reading Statement ts :=
  if (nextKind ts).startsOperand then (readExpr trap ts).map .print
  else ⟨.broken ⟨[.ident, .stringLit, .numberLit], ts.head?⟩, ts.tail, by simp⟩

/-- Read a call or an assignment that starts with a name. -/
def readCallOrAssign (trap : Bool) (name : Token) (ts : List Token) : Reading Statement ts :=
  match ts with
  | [] => ⟨.broken ⟨[.lparen], none⟩, [], Nat.le_refl _⟩
  | t :: r =>
    if t.kind = .lparen then ((readArguments trap r).map (.call ∘ .call name)).after t
    else if t.kind = .assign then ((readExpr trap r).map (.assign name)).after t
    else ⟨.broken ⟨[.lparen], some t⟩, t :: r, Nat.le_refl _⟩

/-- Read the statement that starts with the token `t`. -/
def readStatement (trap : Bool) (t : Token) (ts : List Token) : Reading Statement ts :=
  match t.kind with
  | .kwVar => readVariable trap ts
  | .kwPrint => readPrint trap ts
  | .kwFun => readFunction t ts
  | .ident => readCallOrAssign trap t ts
  | .rawLit => ⟨.raw t, ts, Nat.le_refl _⟩
  | .kwEnd => ⟨.close t, ts, Nat.le_refl _⟩
  | .kwWhile => (readCondition trap ts).map (.whileLoop t)
  | .kwIf => (readCondition trap ts).map (.ifBranch t)
  | .kwElse => ⟨.elseBranch t, ts, Nat.le_refl _⟩
  | .kwReturn =>
    if (nextKind ts).startsOperand then (readExpr trap ts).map (.giveBack ∘ some)
    else ⟨.giveBack none, ts, Nat.le_refl _⟩
  | .kwFor => ⟨.forLoop t, ts, Nat.le_refl _⟩
  | .kwClass => ⟨.classHead t, ts, Nat.le_refl _⟩
  | _ => ⟨.stray t, ts, Nat.le_refl _⟩

/-- A statement with the tokens it was read from. -/
structure Placed where
  tokens : List Token
  statement : Statement

/-- Read all statements; the last one is the end of the input. -/
def readStatements (trap : Bool) (ts : List Token) : List Placed :=
  match ts with
  | [] => [⟨[], .finish⟩]
  | t :: r =>
    let s := readStatement trap t r
    ⟨(t :: r).take ((t :: r).length - s.rest.length), s.value⟩ :: readStatements trap s.rest
termination_by ts.length
decreasing_by exact Nat.lt_succ_of_le (readStatement trap t r).le

/-- The statements of a list of tokens. -/
def TokenList.statements (ts : TokenList) : List Placed := readStatements ts.trap ts.body

end Tarjuman
