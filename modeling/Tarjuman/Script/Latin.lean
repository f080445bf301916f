/-
# Latin names

Arabic names as ASCII identifiers.  Marks are dropped, Arabic letters and digits
have Latin counterparts, and any other character is written as `_u` with its
code.  A name never starts with a digit and is never a reserved word.
-/

import Tarjuman.Text.Number
import Tarjuman.Unicode.Mark
import Tarjuman.Unicode.Normal

namespace Tarjuman
namespace Latin

/-- The Latin counterparts of Arabic letters. -/
def letters : List (Char × String) :=
  [('ء', "2"), ('ا', "a"), ('ب', "b"), ('ت', "t"), ('ة', "h"), ('ث', "th"), ('ج', "j"),
   ('ح', "7"), ('خ', "kh"), ('د', "d"), ('ذ', "dh"), ('ر', "r"), ('ز', "z"), ('س', "s"),
   ('ش', "sh"), ('ص', "S"), ('ض', "D"), ('ط', "T"), ('ظ', "Z"), ('ع', "3"), ('غ', "gh"),
   ('ف', "f"), ('ق', "q"), ('ك', "k"), ('ل', "l"), ('م', "m"), ('ن', "n"), ('ه', "h"),
   ('و', "w"), ('ى', "a"), ('ي', "y"), ('پ', "p"), ('چ', "ch"), ('ژ', "zh"), ('گ', "g"),
   ('ک', "k"), ('ی', "y")]

/-- Words of the script that a name must not be. -/
def reserved : List String :=
  ["break", "case", "catch", "class", "const", "continue", "default", "delete", "do", "else",
   "false", "for", "function", "if", "in", "let", "new", "null", "return", "switch", "this",
   "throw", "true", "try", "typeof", "var", "void", "while", "with"]

/-- The value of an Arabic-Indic or extended Arabic-Indic digit. -/
def arabicDigit? (c : Char) : Option Nat :=
  let n := c.toNat
  if 0x660 ≤ n ∧ n ≤ 0x669 then some (n - 0x660)
  else if 0x6F0 ≤ n ∧ n ≤ 0x6F9 then some (n - 0x6F0)
  else none

/-- The text without nonspacing marks, U+FFFD for each stray byte. -/
def withoutMarks (s : Text) : Text :=
  Unicode.composed
    (Utf8.ofChars ((Utf8.chars (Unicode.decomposed s)).filter (!Unicode.isMark ·)))

/-- The tatweel, which only stretches a word. -/
def tatweel : Char := 'ـ'

/-- One character of a name. -/
def ofChar (c : Char) : Text :=
  if c = '_' ∨ c.isAlphanum then Utf8.encode c
  else
    match arabicDigit? c with
    | some d => [Text.digit d]
    | none =>
      if c = tatweel then []
      else
        match letters.lookup c with
        | some l => l
        | none => "_u" ++ Text.hexUpperPadded 4 c.toNat

/-- A spelling made into an identifier. -/
def identifier (s : Text) : Text :=
  match s with
  | [] => "_"
  | b :: _ =>
    if Text.isDigitByte b then "_" ++ s
    else if reserved.any (Text.ofString · == s) then s ++ "_"
    else s

/-- The identifier for a name whose text without marks is `bare`. -/
def ofBare (bare : Text) : Text := identifier ((Utf8.chars bare).flatMap ofChar)

/-- The ASCII identifier for a name, given what takes the marks away.  A name for which that fails
keeps them. -/
def renameWith (strip : Text → Option Text) (raw : Text) : Text :=
  ofBare ((strip raw).getD raw)

/-- The ASCII identifier for a name. -/
def rename (raw : Text) : Text := renameWith (fun s => some (withoutMarks s)) raw

end Latin
end Tarjuman
