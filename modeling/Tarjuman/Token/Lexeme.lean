/-
# Lexemes

What stands at the head of a text.  Every class of lexeme is a function on the
bytes that are left, which gives the number of bytes it takes up:

| class | bytes |
|-------|-------|
| trivia | blanks, and `//` up to the line feed |
| number | digits, and at most one comma with digits on both sides |
| string | `"` to the next `"` that no backslash escapes |
| raw literal | `-{`, text with balanced braces, `}`, and a `-` if one follows |
| keyword | see `Keyword` |
| identifier | one character, then everything up to a separator |

Digits are Western, Arabic-Indic (U+0660) or extended Arabic-Indic (U+06F0).
-/

import Tarjuman.Token.Keyword

namespace Tarjuman
namespace Lexeme

/-- Space, tab, carriage return and line feed. -/
def isBlank (b : UInt8) : Bool := b == 0x20 || b == 0x09 || b == 0x0D || b == 0x0A

/-- Bytes that end an identifier and do not belong to it. -/
def isSeparator (b : UInt8) : Bool :=
  b == Text.byte '(' || b == Text.byte ')' || b == Text.byte ',' || b == Text.byte '+' ||
    b == Text.byte '-' || isBlank b

/-- One of `0` to `9`. -/
def isWesternDigit (b : UInt8) : Bool := 0x30 ≤ b && b ≤ 0x39

/-- The two bytes of an Arabic-Indic or extended Arabic-Indic digit. -/
def isArabicDigit (a b : UInt8) : Bool :=
  (a == 0xD9 && 0xA0 ≤ b && b ≤ 0xA9) || (a == 0xDB && 0xB0 ≤ b && b ≤ 0xB9)

/-- The number of trivia bytes at the head; `comment` inside a comment. -/
def triviaSize : (comment : Bool) → Text → Nat
  | _, [] => 0
  | true, b :: r => 1 + triviaSize (b != 0x0A) r
  | false, b :: r =>
    if isBlank b then 1 + triviaSize false r
    else if b == Text.byte '/' && r.head? == some (Text.byte '/') then 1 + triviaSize true r
    else 0

/-- The number of bytes of the digits at the head. -/
def digitsSize : Text → Nat
  | [] => 0
  | a :: r =>
    if isWesternDigit a then 1 + digitsSize r
    else
      match r with
      | [] => 0
      | b :: r => if isArabicDigit a b then 2 + digitsSize r else 0

/-- The number of bytes of the number at the head, which starts with a digit. -/
def numberSize (s : Text) : Nat :=
  let whole := digitsSize s
  match s.drop whole with
  | b :: r =>
    if b == Text.byte ',' && digitsSize r != 0 then whole + 1 + digitsSize r else whole
  | [] => whole

/-- The number of bytes up to and with the closing quote of a string whose
opening quote has been passed; a backslash passes over the byte after it. -/
def stringSize? : Text → Option Nat
  | [] => none
  | b :: r =>
    if b == Text.byte '"' then some 1
    else if b == Text.byte '\\' then
      match r with
      | [] => none
      | _ :: r => (stringSize? r).map (2 + ·)
    else (stringSize? r).map (1 + ·)

/-- The number of bytes before the brace that closes `depth + 1` open ones. -/
def rawSize? : (depth : Nat) → Text → Option Nat
  | _, [] => none
  | 0, b :: r =>
    if b == Text.byte '}' then some 0
    else (rawSize? (if b == Text.byte '{' then 1 else 0) r).map (1 + ·)
  | d + 1, b :: r =>
    let depth :=
      if b == Text.byte '{' then d + 2 else if b == Text.byte '}' then d else d + 1
    (rawSize? depth r).map (1 + ·)

/-- The number of bytes of the identifier at the head. -/
def identSize : Text → Nat
  | [] => 0
  | _ :: r => 1 + (r.takeWhile (!isSeparator ·)).length

end Lexeme

/-- What stands at the head of a text that starts with no trivia. -/
inductive Lexeme where
  /-- A token of `size` bytes. -/
  | token (kind : Kind) (size : Nat)
  /-- A raw literal of `total` bytes, of which `size` after the first `lead` are
  kept. -/
  | raw (lead size total : Nat)
  /-- A string with no closing quote. -/
  | openString
  /-- A raw literal with no closing brace. -/
  | openRaw
deriving DecidableEq, Repr

namespace Lexeme

/-- The raw literal whose opening `-{` has been passed. -/
def rawLiteral (r : Text) : Lexeme :=
  match rawSize? 0 r with
  | none => openRaw
  | some n =>
    let inner := r.take n
    let margin := (inner.takeWhile isBlank).length
    let kept := ((inner.drop margin).reverse.dropWhile isBlank).length
    let dash := if (r.drop (n + 1)).head? = some (Text.byte '-') then 1 else 0
    raw (2 + margin) kept (2 + n + 1 + dash)

/-- The operators, a longer spelling before those that start it. -/
def operators : List (String × Kind) :=
  [("==", .eqEq), ("!=", .bangEq), ("<=", .ltEq), (">=", .gtEq), ("=", .assign), ("!", .bang),
    ("<", .lt), (">", .gt), ("(", .lparen), (")", .rparen), ("+", .plus), ("-", .minus),
    ("*", .star), ("\\", .slash), ("/", .slash), (",", .comma)]

/-- The operator at the head: its kind and its number of bytes. -/
def operator? (s : Text) : Option (Kind × Nat) :=
  operators.findSome? fun (spelling, kind) =>
    let bytes := Text.ofString spelling
    if bytes.isPrefixOf s then some (kind, bytes.length) else none

/-- The string whose opening quote has been passed. -/
def string (r : Text) : Lexeme :=
  match stringSize? r with
  | none => openString
  | some n => token .stringLit (1 + n)

/-- The keyword or, where there is none, the identifier at the head. -/
def word (s : Text) : Lexeme :=
  match Keyword.find? s with
  | some (kind, n) => token kind n
  | none => token .ident (identSize s)

/-- The lexeme at the head of a text. -/
def read (s : Text) : Lexeme :=
  if digitsSize s ≠ 0 then token .numberLit (numberSize s)
  else
    match Text.after? s "-\x7b", Text.after? s "\"", operator? s with
    | some r, _, _ => rawLiteral r
    | none, some r, _ => string r
    | none, none, some (kind, n) => token kind n
    | none, none, none => word s

/-- The number of bytes that the lexeme at the head of `s` takes up. -/
def size (s : Text) : Lexeme → Nat
  | token _ n => n
  | raw _ _ n => n
  | openString | openRaw => s.length

/-- An operator takes up at least one byte. -/
theorem operator?_pos {s : Text} {k : Kind} {n : Nat} (h : operator? s = some (k, n)) :
    0 < n := by
  have hall : ∀ o ∈ operators, 0 < (Text.ofString o.1).length := by decide
  obtain ⟨o, ho, h⟩ := List.exists_of_findSome?_eq_some h
  dsimp only at h
  split at h
  · exact (Prod.mk.inj (Option.some.inj h)).2 ▸ hall o ho
  · exact absurd h nofun

/-- A number is at least as long as its digits. -/
theorem digitsSize_le_numberSize (s : Text) : digitsSize s ≤ numberSize s := by
  rw [numberSize]
  split
  · split <;> omega
  · omega

/-- The identifier at the head of a non-empty text takes up at least one byte. -/
theorem identSize_pos {s : Text} (h : s ≠ []) : 0 < identSize s := by
  cases s with
  | nil => exact absurd rfl h
  | cons a r => rw [identSize]; omega

/-- **Reading makes progress:** the lexeme at the head of a non-empty text takes
up at least one byte. -/
theorem size_read_pos {s : Text} (h : s ≠ []) : 0 < (read s).size s := by
  have hs : 0 < s.length := List.length_pos_iff.2 h
  rw [read]
  split
  · have := digitsSize_le_numberSize s
    simp only [size]; omega
  · split
    · rw [rawLiteral]
      split
      · simpa only [size] using hs
      · simp only [size]; omega
    · rw [string]
      split
      · simpa only [size] using hs
      · simp only [size]; omega
    · rename_i heq
      simpa only [size] using operator?_pos heq
    · rw [word]
      split
      · rename_i heq
        simpa only [size] using Keyword.find?_pos heq
      · simpa only [size] using identSize_pos h

end Lexeme
end Tarjuman
