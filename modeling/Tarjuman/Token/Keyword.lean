/-
# Keywords

A keyword is a leading letter, the rest of its letters and, for most keywords, a
delimiter after them.  The delimiter is a space, which belongs to the token, or
one of line feed, tab, carriage return and the end of the text, which do not.

| spelling | kind |
|----------|------|
| إذا | if |
| أرجع, ارجع | return |
| او | or |
| انتهى | end (no delimiter) |
| اطبع | print |
| تابع | function |
| خطأ | false |
| شيء | variable |
| صحيح | true |
| طالما | while |
| فراغ | nothing |
| لكل | for |
| نوع | class |
| وإلا | else |
| و | and |
-/

import Tarjuman.Token.Kind
import Tarjuman.Text.Utf8

namespace Tarjuman

/-- One spelling of a keyword. -/
structure Keyword where
  lead : Char
  /-- The letters after the first. -/
  tail : String
  /-- A delimiter has to follow. -/
  delimited : Bool
  kind : Kind
deriving DecidableEq, Repr

namespace Keyword

/-- Every spelling, those with one leading letter in the order in which they
are tried. -/
def table : List Keyword :=
  [⟨'إ', "ذا", true, .kwIf⟩,
   ⟨'أ', "رجع", true, .kwReturn⟩,
   ⟨'ا', "و", true, .kwOr⟩,
   ⟨'ا', "نتهى", false, .kwEnd⟩,
   ⟨'ا', "طبع", true, .kwPrint⟩,
   ⟨'ا', "رجع", true, .kwReturn⟩,
   ⟨'ت', "ابع", true, .kwFun⟩,
   ⟨'خ', "طأ", true, .kwFalse⟩,
   ⟨'ش', "يء", true, .kwVar⟩,
   ⟨'ص', "حيح", true, .kwTrue⟩,
   ⟨'ط', "الما", true, .kwWhile⟩,
   ⟨'ف', "راغ", true, .kwNil⟩,
   ⟨'ل', "كل", true, .kwFor⟩,
   ⟨'ن', "وع", true, .kwClass⟩,
   ⟨'و', "إلا", true, .kwElse⟩,
   ⟨'و', "", true, .kwAnd⟩]

/-- The letters of the keyword without its delimiter. -/
def spelling (k : Keyword) : Text := Utf8.encode k.lead ++ Text.ofString k.tail

/-- What follows the leading letter, a space standing for the delimiter. -/
def suffix (k : Keyword) : Text :=
  Text.ofString k.tail ++ if k.delimited then [0x20] else []

/-- The keywords that start with a letter, in the order in which they are tried. -/
def withLead (lead : Char) : List Keyword := table.filter (·.lead == lead)

/-- The first spelling of a kind, if it is the kind of a keyword. -/
def spelling? (kind : Kind) : Option Text := (table.find? (·.kind == kind)).map spelling

/-- Bytes that end a keyword without belonging to it. -/
def isDelimiter (b : UInt8) : Bool := b == 0x0A || b == 0x09 || b == 0x0D

/-- How many bytes the delimiter at the head of `s` adds to the keyword, if
there is one. -/
def delimiterSize? : Text → Option Nat
  | [] => some 0
  | b :: _ => if isDelimiter b then some 0 else if b == 0x20 then some 1 else none

/-- The number of bytes of the keyword at the head of `s`, if it stands there. -/
def size? (k : Keyword) (s : Text) : Option Nat :=
  match k.spelling.isPrefixOf? s with
  | none => none
  | some rest =>
    if k.delimited then (delimiterSize? rest).map (k.spelling.length + ·)
    else some k.spelling.length

/-- The keyword at the head of `s`: its kind and its number of bytes. -/
def find? (s : Text) : Option (Kind × Nat) :=
  table.findSome? fun k => (k.size? s).map (k.kind, ·)

/-- Every spelling has at least one byte. -/
theorem spelling_length_pos : ∀ k ∈ table, 0 < k.spelling.length := by decide

/-- A keyword that is found takes up at least one byte. -/
theorem find?_pos {s : Text} {kind : Kind} {n : Nat} (h : find? s = some (kind, n)) : 0 < n := by
  obtain ⟨k, hk, h⟩ := List.exists_of_findSome?_eq_some h
  obtain ⟨m, hm, h⟩ := Option.map_eq_some_iff.1 h
  obtain ⟨rfl, rfl⟩ := Prod.mk.inj h
  have hpos := spelling_length_pos k hk
  rw [size?] at hm
  split at hm
  · exact absurd hm nofun
  · split at hm
    · obtain ⟨d, _, rfl⟩ := Option.map_eq_some_iff.1 hm
      omega
    · exact Option.some.inj hm ▸ hpos

end Keyword
end Tarjuman
