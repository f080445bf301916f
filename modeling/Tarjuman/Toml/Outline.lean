/-
# What TOML statements define

An outline says for each key what stands there.  It is built statement by statement
and refuses a key that is defined twice.

A table may be opened by a deeper key before its own header comes: until then it is
implied, and its header may still come once.  An array may be written again, and the
last one counts.  For an array of tables, deeper keys speak of its last element.
-/

import Tarjuman.Toml.Syntax

namespace Tarjuman
namespace Toml

/-- What stands at a key. -/
inductive Node where
  | table
  /-- An array of tables, opened by headers or by an array of tables in braces. -/
  | tables
  | text (s : Text)
  | truth (b : Bool)
  /-- Anything else. -/
  | other
deriving DecidableEq, Repr

namespace Node

/-- Keys may stand below this one. -/
def isOpen : Node → Bool
  | table | tables => true
  | text _ | truth _ | other => false

/-- What a value defines at its key. -/
def ofValue : Value → Node
  | .text s => text s
  | .truth b => truth b
  | .table _ => table
  | .plain | .array _ => other

end Node

/-- What stands at each key. -/
structure Outline where
  /-- The keys in the order in which they were defined first. -/
  nodes : List (Key × Node) := []
  /-- Tables that are implied by deeper keys. -/
  implied : List Key := []
  /-- Keys whose last value was an array. -/
  arrays : List Key := []
  /-- The keys of all statements and pairs, in the order of the text. -/
  order : List Key := []
deriving Repr

namespace Outline

/-- What stands at a key. -/
def find? (o : Outline) (k : Key) : Option Node := (o.nodes.find? (·.1 == k)).map (·.2)

/-- Without the keys below a key. -/
def clear (o : Outline) (k : Key) : Outline :=
  { o with nodes := o.nodes.filter fun (q, _) => !(k.isPrefixOf q && k != q) }

/-- Put something at a key that has nothing. -/
def put (o : Outline) (k : Key) (n : Node) : Outline := { o with nodes := o.nodes ++ [(k, n)] }

/-- Put something else at a key. -/
def change (o : Outline) (k : Key) (n : Node) : Outline :=
  let o := o.clear k
  { o with nodes := o.nodes.map fun (q, m) => if q = k then (q, n) else (q, m) }

/-- A table is implied. -/
def imply (o : Outline) (k : Key) : Outline := { o with implied := k :: o.implied }

/-- A table is no longer implied only. -/
def settle (o : Outline) (k : Key) : Outline := { o with implied := o.implied.filter (· != k) }

/-- Keep whether the value at a name below a key is an array.  An empty name speaks of
the key itself. -/
def setArray (o : Outline) (below : Key) (name : Text) (isArray : Bool) : Outline :=
  let k := if !name.isEmpty || below.isEmpty then below ++ [name] else below
  let rest := o.arrays.filter (· != k)
  { o with arrays := if isArray then k :: rest else rest }

/-- A key of a statement or a pair. -/
def list (o : Outline) (k : Key) : Outline := { o with order := o.order ++ [k] }

/-- The keys above a key, from the outermost on. -/
def above (k : Key) : List Key := (List.range (k.length - 1)).map fun i => k.take (i + 1)

/-- Every key above may have keys below it. -/
def isOpenAbove (o : Outline) (k : Key) : Bool :=
  (above k).all fun q => ((o.find? q).map (·.isOpen)).getD false

/-- Define what stands at a key. -/
def define (o : Outline) (k : Key) (n : Node) : Option Outline :=
  if o.isOpenAbove k then
    if (o.find? k).isNone then some (o.put k n)
    else if o.arrays.contains k then some ((o.settle k).change k n)
    else if o.implied.contains k then some (o.settle k)
    else none
  else none

/-- Make the keys above a key tables, unless they are there. -/
def implyAbove (o : Outline) (k : Key) : Option Outline :=
  (above k).foldlM (fun o q =>
    match o.find? q with
    | none => some ((o.imply q).put q .table)
    | some n => if n.isOpen then some o else none) o

/-- Open a table. -/
def openTable (o : Outline) (k : Key) : Option Outline :=
  (o.implyAbove k).bind (·.define k .table)

/-- Open the next element of an array of tables. -/
def openElement (o : Outline) (k : Key) : Option Outline :=
  (o.implyAbove k).bind fun o =>
    match o.find? k with
    | none => some (o.put k .tables)
    | some .tables => some (o.clear k)
    | some _ => none

/-- Open the tables that a key of several parts goes through. -/
def openThrough (o : Outline) (below : Key) (key : Key) : Option Outline :=
  (above key).foldlM (fun o q => (o.imply (below ++ q)).openTable (below ++ q)) o

mutual

/-- What a value defines below its own key; `inArray` says that it is an item. -/
def walk (below : Key) (name : Text) (inArray : Bool) (o : Outline) : Value → Option Outline
  | .text _ | .truth _ | .plain => some o
  | .array items => walkItems below name (o.setArray below name true) items
  | .table pairs =>
    let k := below ++ [name]
    let o := o.imply k
    match if inArray then o.openElement k else o.openTable k with
    | some o => walkPairs k o pairs
    | none => none

/-- The same for the items of an array. -/
def walkItems (below : Key) (name : Text) (o : Outline) : List Value → Option Outline
  | [] => some o
  | v :: vs =>
    match walk below name true o v with
    | some o => walkItems below name o vs
    | none => none

/-- Define pairs below a key. -/
def walkPairs (below : Key) (o : Outline) : List (Key × Value) → Option Outline
  | [] => some o
  | (key, v) :: more =>
    let above := below ++ key.dropLast
    let name := key.getLast?.getD []
    match o.openThrough below key with
    | none => none
    | some o =>
      match walk above name false (o.list (below ++ key)) v with
      | none => none
      | some o =>
        match o.define (below ++ key) (.ofValue v) with
        | none => none
        | some o => walkPairs below (o.setArray above name (v matches .array _)) more

end

/-- Go on with statements; `below` is the key of the last header. -/
def follow (below : Key) (o : Outline) : List Statement → Option Outline
  | [] => some o
  | .header k :: more =>
    match o.openTable k with
    | some o => follow k ((o.setArray k [] false).list k) more
    | none => none
  | .element k :: more =>
    match o.openElement k with
    | some o => follow k ((o.setArray k [] false).list k) more
    | none => none
  | .pair key v :: more =>
    match walkPairs below o [(key, v)] with
    | some o => follow below o more
    | none => none

/-- What statements define, unless they define something twice. -/
def ofStatements? (sts : List Statement) : Option Outline := follow [] {} sts

/-- The names right below a key, with what stands there. -/
def below (o : Outline) (k : Key) : List (Text × Node) :=
  o.nodes.filterMap fun (q, n) =>
    match k.isPrefixOf? q with
    | some [name] => some (name, n)
    | _ => none

end Outline
end Toml
end Tarjuman
