/-
# Kinds of tokens

The thirty-six kinds with their numbers and names, and the classes of kinds that
the script writer asks about.
-/

import Tarjuman.Text.Basic

namespace Tarjuman

/-- The category of a token. -/
inductive Kind where
  | invalid
  | endOfInput
  | lparen
  | rparen
  | comma
  | bang
  | bangEq
  | assign
  | eqEq
  | gt
  | gtEq
  | lt
  | ltEq
  | plus
  | minus
  | star
  /-- Division, written with a stroke in either direction. -/
  | slash
  | kwAnd
  | kwOr
  | ident
  /-- Text that goes to the output as it stands: `-{ ... }`. -/
  | rawLit
  /-- A string in double quotes, quotes included. -/
  | stringLit
  /-- A decimal number; a comma divides the fraction. -/
  | numberLit
  | kwClass
  | kwElse
  | kwFalse
  | kwFun
  | kwFor
  | kwIf
  | kwNil
  | kwPrint
  | kwReturn
  | kwTrue
  | kwVar
  | kwWhile
  | kwEnd
  /-- A number that names no kind. -/
  | unknown
deriving DecidableEq, Repr, Inhabited

namespace Kind

/-- The kinds in the order of their numbers. -/
def all : List Kind :=
  [invalid, endOfInput, lparen, rparen, comma, bang, bangEq, assign, eqEq, gt, gtEq, lt, ltEq,
    plus, minus, star, slash, kwAnd, kwOr, ident, rawLit, stringLit, numberLit, kwClass, kwElse,
    kwFalse, kwFun, kwFor, kwIf, kwNil, kwPrint, kwReturn, kwTrue, kwVar, kwWhile, kwEnd]

/-- The kind with a given number. -/
def ofNumber (n : Nat) : Kind := all.getD n unknown

/-- The name of the kind. -/
def name : Kind → Text
  | invalid => "Invalid"
  | endOfInput => "EOF"
  | lparen => "LParen"
  | rparen => "RParen"
  | comma => "Comma"
  | bang => "Bang"
  | bangEq => "BangEq"
  | assign => "Assign"
  | eqEq => "EqEq"
  | gt => "Gt"
  | gtEq => "GtEq"
  | lt => "Lt"
  | ltEq => "LtEq"
  | plus => "Plus"
  | minus => "Minus"
  | star => "Star"
  | slash => "Slash"
  | kwAnd => "KwAnd"
  | kwOr => "KwOr"
  | ident => "Ident"
  | rawLit => "RawLit"
  | stringLit => "StringLit"
  | numberLit => "NumberLit"
  | kwClass => "KwClass"
  | kwElse => "KwElse"
  | kwFalse => "KwFalse"
  | kwFun => "KwFun"
  | kwFor => "KwFor"
  | kwIf => "KwIf"
  | kwNil => "KwNil"
  | kwPrint => "KwPrint"
  | kwReturn => "KwReturn"
  | kwTrue => "KwTrue"
  | kwVar => "KwVar"
  | kwWhile => "KwWhile"
  | kwEnd => "KwEnd"
  | unknown => "Kind(?)"

/-- String, number and raw literals. -/
def isLiteral : Kind → Bool
  | stringLit | numberLit | rawLit => true
  | _ => false

/-- Punctuation and operators. -/
def isPunctuation : Kind → Bool
  | lparen | rparen | comma | bang | bangEq | assign | eqEq | gt | gtEq | lt | ltEq
  | plus | minus | star | slash => true
  | _ => false

/-- Keywords, the two connectives included. -/
def isKeyword : Kind → Bool
  | kwAnd | kwOr | kwClass | kwElse | kwFalse | kwFun | kwFor | kwIf | kwNil
  | kwPrint | kwReturn | kwTrue | kwVar | kwWhile | kwEnd => true
  | _ => false

/-- The four arithmetic operators. -/
def isArithmetic : Kind → Bool
  | plus | minus | star | slash => true
  | _ => false

/-- The six comparisons. -/
def isComparison : Kind → Bool
  | eqEq | bangEq | lt | ltEq | gt | gtEq => true
  | _ => false

/-- Kinds that an operand can start with. -/
def startsOperand : Kind → Bool
  | ident | stringLit | numberLit | kwTrue | kwFalse | kwNil => true
  | _ => false

/-- The operator as the script writes it. -/
def operatorText : Kind → Text
  | plus => "+"
  | minus => "-"
  | star => "*"
  | slash => "/"
  | eqEq => "=="
  | bangEq => "!="
  | lt => "<"
  | ltEq => "<="
  | gt => ">"
  | gtEq => ">="
  | _ => []

end Kind
end Tarjuman
