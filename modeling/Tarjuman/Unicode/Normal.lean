/-
# Normal forms

Canonical decomposition (`decomposed`) and canonical composition (`composed`) of
texts, with two provisions for texts that are not clean:

* Bytes that decode to nothing stay where they are and combine with nothing.  A
  sequence cut off by the end of the text stays as it is with all that follows
  its first byte.
* No more than thirty nonstarters stand in a row: a grapheme joiner, U+034F, is
  put before the thirty-first, so that a text can be normalised in a stream.
-/

import Tarjuman.Text.Utf8
import Tarjuman.Unicode.CombiningClass
import Tarjuman.Unicode.Decomposition
import Tarjuman.Unicode.Nonstarter

namespace Tarjuman
namespace Unicode

open Utf8 (Item)

/-! ### Characters -/

/-- The first Hangul syllable. -/
def hangulBase : Nat := 0xAC00

/-- The number of Hangul syllables. -/
def hangulCount : Nat := 19 * 21 * 28

/-- The jamo of a Hangul syllable. -/
def hangulParts (n : Nat) : List Nat :=
  let i := n - hangulBase
  let parts := [0x1100 + i / (21 * 28), 0x1161 + i / 28 % 21]
  if i % 28 = 0 then parts else parts ++ [0x11A7 + i % 28]

/-- The full canonical decomposition of a code point, following at most `fuel`
mappings; no chain of mappings is longer than three. -/
def decomposeCode : (fuel : Nat) → Nat → List Nat
  | 0, n => [n]
  | fuel + 1, n =>
    if n < 0xC0 then [n]
    else if hangulBase ≤ n ∧ n < hangulBase + hangulCount then hangulParts n
    else
      match pairs.find? (·.1 == n) with
      | some (_, a, b) => decomposeCode fuel a ++ decomposeCode fuel b
      | none =>
        match singletons.find? (·.1 == n) with
        | some (_, a) => decomposeCode fuel a
        | none => [n]

/-- The full canonical decomposition of a character. -/
def decomposeChar (c : Char) : List Char := (decomposeCode 4 c.toNat).map Char.ofNat

/-- The Hangul syllable that two code points make together. -/
def composeHangul? (a b : Nat) : Option Nat :=
  if 0x1100 ≤ a ∧ a < 0x1113 ∧ 0x1161 ≤ b ∧ b < 0x1176 then
    some (hangulBase + (a - 0x1100) * (21 * 28) + (b - 0x1161) * 28)
  else if hangulBase ≤ a ∧ a < hangulBase + hangulCount ∧ (a - hangulBase) % 28 = 0 ∧
      0x11A7 < b ∧ b < 0x11C3 then
    some (a + (b - 0x11A7))
  else none

/-- The character that two characters make together. -/
def composePair? (a b : Char) : Option Char :=
  match composeHangul? a.toNat b.toNat with
  | some n => some (Char.ofNat n)
  | none =>
    (pairs.find? fun (c, x, y) => x == a.toNat && y == b.toNat && !excluded.contains c).map
      fun (c, _) => Char.ofNat c

/-- The combining class of an item; stray bytes are starters. -/
def itemClass : Item → Nat
  | .char c => combiningClass c.toNat
  | .stray _ => 0

/-! ### Texts -/

/-- The items of a text up to the first byte that announces more bytes than are
left, and the rest from there; `skip` counts bytes of an item already given. -/
def splitTail : (skip : Nat) → Text → List Item × Text
  | _, [] => ([], [])
  | k + 1, _ :: r => splitTail k r
  | 0, b :: r =>
    if r.length + 1 < Utf8.announced b then ([], b :: r)
    else
      match Utf8.decode? (b :: r) with
      | some c =>
        let (items, rest) := splitTail (c.utf8Size - 1) r
        (.char c :: items, rest)
      | none =>
        let (items, rest) := splitTail 0 r
        (.stray b :: items, rest)

/-- The grapheme joiner. -/
def joiner : Item := .char (Char.ofNat 0x34F)

/-- The longest run of nonstarters. -/
def longestRun : Nat := 30

/-- The leading and trailing nonstarters of an item. -/
def itemNonstarters : Item → Nat × Nat
  | .char c => nonstarters c.toNat
  | .stray _ => (0, 0)

/-- A joiner before every item that would make a run of nonstarters too long;
`run` counts those since the last starter. -/
def joined : (run : Nat) → List Item → List Item
  | _, [] => []
  | run, i :: r =>
    let (lead, trail) := itemNonstarters i
    if lead = 0 then i :: joined trail r
    else if longestRun < run + lead then joiner :: i :: joined lead r
    else i :: joined (run + lead) r

/-- Put a nonstarter in its place among those at the end of `done`, which is in
reverse: behind all of the same or a lower class. -/
def insertByClass (i : Item) : List Item → List Item
  | [] => [i]
  | j :: done => if itemClass i < itemClass j then j :: insertByClass i done else i :: j :: done

/-- Every run of nonstarters in the order of their classes; `done` is what comes
before, in reverse. -/
def reordered (done : List Item) : List Item → List Item
  | [] => done.reverse
  | i :: r =>
    if itemClass i = 0 then reordered (i :: done) r else reordered (insertByClass i done) r

/-- The items decomposed and put in canonical order. -/
def canonical (items : List Item) : List Item :=
  reordered [] (items.flatMap fun
    | .char c => (decomposeChar c).map .char
    | .stray b => [.stray b])

/-- Compose what is not blocked.  `starter` is the last starter, `held` the
items after it, in reverse, that did not compose with it. -/
def recomposed (starter : Option Char) (held : List Item) : List Item → List Item
  | [] => (starter.toList.map .char) ++ held.reverse
  | i :: r =>
    let keep : List Item :=
      if itemClass i = 0 then
        (starter.toList.map .char) ++ held.reverse ++
          match i with
          | .char c => recomposed (some c) [] r
          | .stray b => .stray b :: recomposed none [] r
      else recomposed starter (i :: held) r
    let blocked :=
      match held with
      | [] => false
      | j :: _ => itemClass i ≤ itemClass j
    match starter, i with
    | some s, .char c =>
      if blocked then keep
      else
        match composePair? s c with
        | some d => recomposed (some d) held r
        | none => keep
    | _, _ => keep

/-- The text in canonical decomposition. -/
def decomposed (s : Text) : Text :=
  let (items, rest) := splitTail 0 s
  (canonical (joined 0 items)).flatMap Item.bytes ++ rest

/-- The text in canonical composition. -/
def composed (s : Text) : Text :=
  let (items, rest) := splitTail 0 s
  (recomposed none [] (canonical (joined 0 items))).flatMap Item.bytes ++ rest

/-- A composition as a file's bytes go through it: a test that tells which texts need none, and
what becomes of the others. -/
structure Composition where
  isNormal : Text → Bool
  bytes : Text → Text

namespace Composition

/-- The text, composed unless the test says that it is. -/
def apply (k : Composition) (s : Text) : Text := if k.isNormal s then s else k.bytes s

/-- Canonical composition, with an exact test. -/
def canonical : Composition where
  isNormal s := composed s == s
  bytes := composed

end Composition
end Unicode
end Tarjuman
