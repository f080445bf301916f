/-
# Syntax trees

The statements of a source as they are read, mistakes included: where a token
is missing the tree says what was expected and which token stood there, with
`none` for the end of the input.

    expression ::= operand [arithmetic operand]
    condition  ::= expression [comparison expression]
    operand    ::= name | name "(" [expression {"," expression}] ")" | literal
-/

import Tarjuman.Token.Basic

namespace Tarjuman

/-- How an argument list ends. -/
inductive Closing where
  /-- With its parenthesis. -/
  | closed
  /-- With another token in the place of the parenthesis. -/
  | missing (found : Option Token)
  /-- Not at all: reading it goes on for ever. -/
  | endless
deriving DecidableEq, Repr

mutual
/-- An operand. -/
inductive Operand where
  | name (t : Token)
  /-- A string, a number, or one of the words for true, false and nothing. -/
  | literal (t : Token)
  | call (name : Token) (args : Arguments)
  /-- No operand. -/
  | missing (found : Option Token)
/-- An expression of one operand or two. -/
inductive Expr where
  | single (left : Operand)
  | binary (left : Operand) (op : Kind) (right : Operand)
/-- The arguments of a call. -/
inductive Arguments where
  | done (closing : Closing)
  | more (first : Expr) (rest : Arguments)
end

instance : Inhabited Operand := ⟨.missing none⟩

namespace Arguments

/-- How the list ends. -/
def closing : Arguments → Closing
  | done c => c
  | more _ rest => rest.closing

end Arguments

namespace Operand

/-- The operand was read without a mistake at its end. -/
def isWhole : Operand → Bool
  | name _ | literal _ => true
  | call _ args => args.closing = .closed
  | missing _ => false

/-- Reading the operand failed at the end of the input. -/
def failedAtEnd : Operand → Bool
  | missing none => true
  | call _ args => args.closing = .missing none
  | _ => false

end Operand

namespace Expr

/-- The expression was read without a mistake in its operands. -/
def isWhole : Expr → Bool
  | single l => l.isWhole
  | binary l _ r => l.isWhole && r.isWhole

/-- Reading the expression failed at the end of the input. -/
def failedAtEnd : Expr → Bool
  | single l => l.failedAtEnd
  | binary _ _ r => r.failedAtEnd

end Expr

/-- A condition: an expression, or two that are compared. -/
inductive Condition where
  | plain (e : Expr)
  | compare (left : Expr) (op : Kind) (right : Expr)

/-- A token that is not of the kind it should be. -/
structure Misplaced where
  expected : List Kind
  found : Option Token
deriving DecidableEq, Repr

/-- A statement. -/
inductive Statement where
  /-- A declared variable; its value is `quoted` if it starts with a name that is
  not called. -/
  | declare (name : Token) (quoted : Bool) (value : Expr)
  | print (value : Expr)
  /-- The head of a function, as far as it was read. -/
  | function (keyword : Token) (name : Option Token) (params : List Token)
      (fault : Option Misplaced)
  | call (callee : Operand)
  | assign (name : Token) (value : Expr)
  | raw (t : Token)
  | close (keyword : Token)
  | whileLoop (keyword : Token) (condition : Condition)
  | ifBranch (keyword : Token) (condition : Condition)
  | elseBranch (keyword : Token)
  | giveBack (value : Option Expr)
  /-- A `for`, which says nothing. -/
  | forLoop (keyword : Token)
  | classHead (keyword : Token)
  /-- A statement that breaks off. -/
  | broken (fault : Misplaced)
  /-- A token that starts no statement. -/
  | stray (t : Token)
  /-- The end of the input. -/
  | finish

end Tarjuman
