/-
# Bags of diagnostics

A bag holds diagnostics up to a limit and drops the rest.  No bag holds more than
65535.
-/

import Tarjuman.Diagnostic.Basic

namespace Tarjuman

/-- Diagnostics, no more of them than the limit. -/
structure Bag where
  items : Array Diagnostic := #[]
  limit : Nat

namespace Bag

/-- The highest limit. -/
def ceiling : Nat := 0xFFFF

/-- An empty bag; a limit that is not positive or above the ceiling means the
ceiling. -/
def new (limit : Int) : Bag :=
  { limit := if limit ≤ 0 ∨ limit > ceiling then ceiling else limit.toNat }

/-- The number of diagnostics in the bag. -/
def size (b : Bag) : Nat := b.items.size

/-- The diagnostics in the order in which they were put in. -/
def toList (b : Bag) : List Diagnostic := b.items.toList

/-- The limit as it is shown, a word of 16 bits. -/
def cap (b : Bag) : UInt16 := b.limit.toUInt16

/-- There is no room left. -/
def isFull (b : Bag) : Bool := b.limit ≤ b.items.size

/-- Put a diagnostic in unless the bag is full. -/
def add (b : Bag) (d : Diagnostic) : Bag :=
  if b.isFull then b else { b with items := b.items.push d }

/-- Put a diagnostic in unless the bag is full, and say whether there was room for it. -/
def offer (b : Bag) (d : Diagnostic) : Bool × Bag := (!b.isFull, b.add d)

/-- Put diagnostics in one after the other. -/
def addAll (b : Bag) (ds : List Diagnostic) : Bag := ds.foldl add b

/-- A bag with a limit, filled in order. -/
def ofList (limit : Int) (ds : List Diagnostic) : Bag := (new limit).addAll ds

/-- Some diagnostic is an error or worse. -/
def hasErrors (b : Bag) : Bool := b.items.any (·.severity.isError)

/-- Some diagnostic is a warning or worse. -/
def hasWarnings (b : Bag) : Bool := b.items.any (·.severity.isWarning)

/-- The diagnostics that one part of the program made. -/
def ofOrigin (b : Bag) (origin : Origin) : List Diagnostic :=
  b.toList.filter (·.origin == origin)

/-- Put in everything another bag holds; the limit grows to make room, up to the
ceiling. -/
def merge (b other : Bag) : Bag :=
  { b with limit := max b.limit (min (b.size + other.size) ceiling) }.addAll other.toList

/-- Merge with another bag if there is one. -/
def mergeWith (b : Bag) : Option Bag → Bag
  | some other => b.merge other
  | none => b

/-- By file and span, then the worse severity first, then by code. -/
def order (a b : Diagnostic) : Ordering :=
  (compare a.span.file b.span.file).then <|
  (compare a.span.start b.span.start).then <|
  (compare a.span.stop b.span.stop).then <|
  (compare b.severity.level a.severity.level).then <|
  compare a.code.number b.code.number

/-- Put the diagnostics in order; those that are level keep their places. -/
def sort (b : Bag) : Bag :=
  { b with items := (b.toList.mergeSort fun x y => order x y != .gt).toArray }

/-- The first of several diagnostics with one code and one span. -/
def firstsFrom (seen : List Diagnostic) : List Diagnostic → List Diagnostic
  | [] => []
  | d :: r =>
    if seen.any fun e => e.code = d.code ∧ e.span = d.span then firstsFrom seen r
    else d :: firstsFrom (d :: seen) r

/-- Keep the first of several diagnostics with one code and one span. -/
def dedup (b : Bag) : Bag := { b with items := (firstsFrom [] b.toList).toArray }

end Bag
end Tarjuman
