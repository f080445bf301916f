/-
# The grammar of script expressions

    formula ::= term | "(" term " " operator " " term ")"
    term    ::= name | name "(" [formula {"," formula}] ")" | numeral | string
              | "true" | "false" | "null"
    test    ::= formula | formula " " comparison " " formula

A text has one tree at most (`ParsesFormula.eq`, `ParsesTest.eq`).  The reason is that every
part delimits itself: two texts of terms that go on with something that stops a term, a comma,
a closing parenthesis or a blank, are equal if the whole is (`ParsesTerm.unique`), whatever
bytes there are in the strings.
-/

import Mathlib.Data.List.Basic
import Tarjuman.Proofs.LatinNames
import Tarjuman.Proofs.TokenLanguages

namespace Tarjuman
namespace Target

/-! ## Trees and texts -/

/-- A term without arguments. -/
inductive Leaf where
  | name (s : Text)
  | number (s : Text)
  | string (s : Text)
  | yes
  | no
  | nothing
deriving DecidableEq

mutual
inductive Term where
  | leaf (l : Leaf)
  | call (name : Text) (args : Formulas)
inductive Formula where
  | single (t : Term)
  | binary (left : Term) (op : Kind) (right : Term)
inductive Formulas where
  | nil
  | cons (first : Formula) (rest : Formulas)
end

inductive Test where
  | plain (e : Formula)
  | compare (left : Formula) (op : Kind) (right : Formula)

/-- One or more of `0` to `9`. -/
structure Decimal (s : Text) : Prop where
  solid : s ≠ []
  bytes : ∀ b ∈ s, Text.isDigitByte b = true

/-- A number with a point at most, and digits on both sides of it. -/
inductive Numeral : Text → Prop where
  | whole {s : Text} (digits : Decimal s) : Numeral s
  | point {s t : Text} (digits : Decimal s) (more : Decimal t) : Numeral (s ++ "." ++ t)

/-- The operators between terms. -/
def operators : List (Kind × Text) :=
  [(.plus, "+"), (.minus, "-"), (.star, "*"), (.slash, "/")]

/-- The operators between formulas. -/
def comparisons : List (Kind × Text) :=
  [(.eqEq, "=="), (.bangEq, "!="), (.lt, "<"), (.ltEq, "<="), (.gt, ">"), (.gtEq, ">=")]

inductive ParsesLeaf : Text → Leaf → Prop where
  | name {s : Text} (h : Latin.Name s) : ParsesLeaf s (.name s)
  | number {s : Text} (h : Numeral s) : ParsesLeaf s (.number s)
  | string {s : Text} (h : Lexeme.StringText s) : ParsesLeaf s (.string s)
  | yes : ParsesLeaf "true" .yes
  | no : ParsesLeaf "false" .no
  | nothing : ParsesLeaf "null" .nothing

mutual
/-- The text of a term. -/
inductive ParsesTerm : Text → Term → Prop where
  | leaf {s : Text} {l : Leaf} (h : ParsesLeaf s l) : ParsesTerm s (.leaf l)
  | call {name s : Text} {args : Formulas} (h : Latin.Name name) (inner : ParsesFormulas s args) :
      ParsesTerm (name ++ ("(" ++ (s ++ ")"))) (.call name args)
/-- The text of a formula. -/
inductive ParsesFormula : Text → Formula → Prop where
  | single {s : Text} {t : Term} (h : ParsesTerm s t) : ParsesFormula s (.single t)
  | binary {s t sym : Text} {l r : Term} {op : Kind} (left : ParsesTerm s l)
      (h : (op, sym) ∈ operators) (right : ParsesTerm t r) :
      ParsesFormula ("(" ++ (s ++ (" " ++ (sym ++ (" " ++ (t ++ ")")))))) (.binary l op r)
/-- The text of formulas with commas between them. -/
inductive ParsesFormulas : Text → Formulas → Prop where
  | none : ParsesFormulas [] .nil
  | one {s : Text} {e : Formula} (first : ParsesFormula s e) : ParsesFormulas s (.cons e .nil)
  | more {s t : Text} {e f : Formula} {rest : Formulas} (first : ParsesFormula s e)
      (next : ParsesFormulas t (.cons f rest)) :
      ParsesFormulas (s ++ ("," ++ t)) (.cons e (.cons f rest))
end

/-- The text of a test. -/
inductive ParsesTest : Text → Test → Prop where
  | plain {s : Text} {e : Formula} (h : ParsesFormula s e) : ParsesTest s (.plain e)
  | compare {s t sym : Text} {l r : Formula} {op : Kind} (left : ParsesFormula s l)
      (h : (op, sym) ∈ comparisons) (right : ParsesFormula t r) :
      ParsesTest (s ++ (" " ++ (sym ++ (" " ++ t)))) (.compare l op r)

/-! ## Words and strings -/

/-- A byte of a name or of a number. -/
def isWordByte (b : UInt8) : Bool := Latin.isNameByte b || b == 0x2E

/-- What follows does not go on with a word. -/
def EndsWord (r : Text) : Prop := ∀ b ∈ r.head?, isWordByte b = false

theorem takeWhile_append_of_ends {p : UInt8 → Bool} {s r : Text} (hs : ∀ b ∈ s, p b = true)
    (hr : ∀ b ∈ r.head?, p b = false) : (s ++ r).takeWhile p = s := by
  rw [List.takeWhile_append_of_pos hs]
  cases r with
  | nil => rw [List.takeWhile_nil, List.append_nil]
  | cons b r => rw [List.takeWhile_cons_of_neg (by simp [hr b rfl]), List.append_nil]

/-- The bytes with a property that stand in front are determined. -/
theorem eq_of_append_eq {p : UInt8 → Bool} {s s' r r' : Text} (hs : ∀ b ∈ s, p b = true)
    (hs' : ∀ b ∈ s', p b = true) (hr : ∀ b ∈ r.head?, p b = false)
    (hr' : ∀ b ∈ r'.head?, p b = false) (h : s ++ r = s' ++ r') : s = s' ∧ r = r' := by
  have heq : s = s' := by
    rw [← takeWhile_append_of_ends hs hr, h, takeWhile_append_of_ends hs' hr']
  subst heq
  exact ⟨rfl, List.append_cancel_left h⟩

theorem StringBody.eq_of_append_eq {s s' r r' : Text} (hs : Lexeme.StringBody s)
    (hs' : Lexeme.StringBody s') (h : s ++ Lexeme.quote :: r = s' ++ Lexeme.quote :: r') :
    s = s' ∧ r = r' := by
  have hquote : Lexeme.quote ≠ Lexeme.backslash := by decide
  induction hs generalizing s' with
  | nil =>
    cases hs' with
    | nil => exact ⟨rfl, (List.cons.inj h).2⟩
    | plain quote _ _ => exact absurd (List.cons.inj h).1.symm quote
    | hidden b _ => exact absurd (List.cons.inj h).1 hquote
  | plain quote backslash _ ih =>
    cases hs' with
    | nil => exact absurd (List.cons.inj h).1 quote
    | plain _ _ more =>
      obtain ⟨rfl, htail⟩ := List.cons.inj h
      obtain ⟨rfl, rfl⟩ := ih more htail
      exact ⟨rfl, rfl⟩
    | hidden b _ => exact absurd (List.cons.inj h).1 backslash
  | hidden b _ ih =>
    cases hs' with
    | nil => exact absurd (List.cons.inj h).1.symm hquote
    | plain _ backslash _ => exact absurd (List.cons.inj h).1.symm backslash
    | hidden b' more =>
      obtain ⟨rfl, htail⟩ := List.cons.inj (List.cons.inj h).2
      obtain ⟨rfl, rfl⟩ := ih more htail
      exact ⟨rfl, rfl⟩

/-- A string ends where it is closed. -/
theorem StringText.eq_of_append_eq {s s' r r' : Text} (hs : Lexeme.StringText s)
    (hs' : Lexeme.StringText s') (h : s ++ r = s' ++ r') : s = s' ∧ r = r' := by
  obtain ⟨inner⟩ := hs
  obtain ⟨inner'⟩ := hs'
  simp only [List.cons_append, List.append_assoc] at h
  obtain ⟨rfl, rfl⟩ := StringBody.eq_of_append_eq inner inner' (List.cons.inj h).2
  exact ⟨rfl, rfl⟩

/-! ## Leaves -/

theorem isWordByte_of_isDigitByte {b : UInt8} (h : Text.isDigitByte b = true) :
    isWordByte b = true := by
  rw [isWordByte, Latin.isNameByte, h]
  rfl

theorem Numeral.isWordByte {s : Text} (h : Numeral s) : ∀ b ∈ s, isWordByte b = true := by
  cases h with
  | whole digits => exact fun b hb => isWordByte_of_isDigitByte (digits.bytes b hb)
  | point digits more =>
    refine List.forall_mem_append.2 ⟨List.forall_mem_append.2 ⟨fun b hb => ?_, ?_⟩, fun b hb => ?_⟩
    · exact isWordByte_of_isDigitByte (digits.bytes b hb)
    · exact List.forall_mem_singleton.2 (by decide)
    · exact isWordByte_of_isDigitByte (more.bytes b hb)

/-- A number starts with a digit. -/
theorem Numeral.starts {s : Text} (h : Numeral s) :
    ∃ b r, s = b :: r ∧ Text.isDigitByte b = true := by
  have hdecimal {s : Text} (h : Decimal s) : ∃ b r, s = b :: r ∧ Text.isDigitByte b = true := by
    obtain ⟨b, r, rfl⟩ := List.exists_cons_of_ne_nil h.solid
    exact ⟨b, r, rfl, h.bytes b List.mem_cons_self⟩
  cases h with
  | whole digits => exact hdecimal digits
  | point digits _ =>
    obtain ⟨b, r, rfl, hb⟩ := hdecimal digits
    exact ⟨b, _, rfl, hb⟩

/-- A leaf is a word or a string. -/
theorem ParsesLeaf.word_or_string {s : Text} {l : Leaf} (h : ParsesLeaf s l) :
    (s ≠ [] ∧ ∀ b ∈ s, isWordByte b = true) ∨ Lexeme.StringText s := by
  cases h with
  | name h =>
    refine .inl ⟨h.solid, fun b hb => ?_⟩
    rw [isWordByte, h.bytes b hb]
    rfl
  | number h =>
    obtain ⟨b, r, hs, -⟩ := h.starts
    exact .inl ⟨by rw [hs]; exact List.cons_ne_nil _ _, h.isWordByte⟩
  | string h => exact .inr h
  | yes => exact .inl (by decide +kernel)
  | no => exact .inl (by decide +kernel)
  | nothing => exact .inl (by decide +kernel)

/-- The leaf with a given text. -/
def Leaf.ofText (s : Text) : Leaf :=
  if s = "true" then yes
  else if s = "false" then no
  else if s = "null" then nothing
  else if s.head? = some Lexeme.quote then string s
  else if s.head?.any Text.isDigitByte then number s
  else name s

/-- **A leaf is determined by its text.** -/
theorem ParsesLeaf.ofText {s : Text} {l : Leaf} (h : ParsesLeaf s l) : Leaf.ofText s = l := by
  have hwords : ∀ w ∈ Latin.valueWords,
      w.head? ≠ some Lexeme.quote ∧ w.head?.any Text.isDigitByte = false := by decide
  have hfree {s : Text} (h : s ∉ Latin.valueWords) :
      s ≠ Text.ofString "true" ∧ s ≠ Text.ofString "false" ∧ s ≠ Text.ofString "null" := by
    simpa [Latin.valueWords] using h
  cases h with
  | name h =>
    obtain ⟨htrue, hfalse, hnull⟩ := hfree h.free
    obtain ⟨b, r, hs⟩ := List.exists_cons_of_ne_nil h.solid
    have hquote : s.head? ≠ some Lexeme.quote := fun hq => by
      have hbyte := h.bytes Lexeme.quote (List.mem_of_mem_head? hq)
      exact absurd hbyte (by decide)
    have hdigit : ¬ s.head?.any Text.isDigitByte = true := by
      have hb := h.starts b (by rw [hs]; rfl)
      rw [hs]
      simp [hb]
    rw [Leaf.ofText, if_neg htrue, if_neg hfalse, if_neg hnull, if_neg hquote, if_neg hdigit]
  | number h =>
    obtain ⟨b, r, hs, hb⟩ := h.starts
    have hdigit : s.head?.any Text.isDigitByte = true := by
      rw [hs]
      exact hb
    obtain ⟨htrue, hfalse, hnull⟩ := hfree fun hmem => by
      rw [(hwords s hmem).2] at hdigit
      cases hdigit
    have hquote : s.head? ≠ some Lexeme.quote := fun hq => by
      rw [hq] at hdigit
      exact absurd hdigit (by decide)
    rw [Leaf.ofText, if_neg htrue, if_neg hfalse, if_neg hnull, if_neg hquote, if_pos hdigit]
  | string h =>
    have hquote : s.head? = some Lexeme.quote := by
      obtain ⟨inner⟩ := h
      rfl
    obtain ⟨htrue, hfalse, hnull⟩ := hfree fun hmem => (hwords s hmem).1 hquote
    rw [Leaf.ofText, if_neg htrue, if_neg hfalse, if_neg hnull, if_pos hquote]
  | yes => rfl
  | no => decide
  | nothing => decide

/-- **A leaf in front of something that ends a word is determined.** -/
theorem ParsesLeaf.unique {s s' r r' : Text} {l l' : Leaf} (h : ParsesLeaf s l)
    (h' : ParsesLeaf s' l') (heq : s ++ r = s' ++ r') (hr : EndsWord r) (hr' : EndsWord r') :
    l = l' ∧ r = r' := by
  -- a word does not start with the quote of a string
  have hclash {s s' r r' : Text} (hs : s ≠ [] ∧ ∀ b ∈ s, isWordByte b = true)
      (hs' : Lexeme.StringText s') (heq : s ++ r = s' ++ r') : False := by
    obtain ⟨b, t, rfl⟩ := List.exists_cons_of_ne_nil hs.1
    obtain ⟨inner⟩ := hs'
    have hb := hs.2 b List.mem_cons_self
    rw [(List.cons.inj heq).1] at hb
    exact absurd hb (by decide)
  have htext : s = s' ∧ r = r' := by
    rcases h.word_or_string with hs | hs <;> rcases h'.word_or_string with hs' | hs'
    · exact eq_of_append_eq hs.2 hs'.2 hr hr' heq
    · exact (hclash hs hs' heq).elim
    · exact (hclash hs' hs heq.symm).elim
    · exact StringText.eq_of_append_eq hs hs' heq
  refine ⟨?_, htext.2⟩
  rw [← h.ofText, htext.1, h'.ofText]

/-! ## Terms and formulas -/

theorem openParen_append (s : Text) : Text.ofString "(" ++ s = 0x28 :: s := rfl

theorem closeParen_append (s : Text) : Text.ofString ")" ++ s = 0x29 :: s := rfl

theorem comma_append (s : Text) : Text.ofString "," ++ s = 0x2C :: s := rfl

theorem blank_append (s : Text) : Text.ofString " " ++ s = 0x20 :: s := rfl

/-- What follows is nothing, or it starts with a comma, a closing parenthesis or a blank. -/
def Stops (r : Text) : Prop := ∀ b ∈ r.head?, b = 0x2C ∨ b = 0x29 ∨ b = 0x20

theorem stops_nil : Stops [] := by simp [Stops]

theorem stops_cons {b : UInt8} (h : b = 0x2C ∨ b = 0x29 ∨ b = 0x20) (r : Text) :
    Stops (b :: r) := by
  rintro c ⟨⟩
  exact h

theorem Stops.endsWord {r : Text} (h : Stops r) : EndsWord r := by
  intro b hb
  rcases h b hb with rfl | rfl | rfl <;> decide

theorem endsWord_openParen (r : Text) : EndsWord (0x28 :: r) := by
  rintro b ⟨⟩
  decide

/-- Symbols without blanks are determined in front of one. -/
theorem symbol_unique {table : List (Kind × Text)}
    (hblank : table.all fun p => !p.2.contains 0x20)
    (hkinds : ∀ p ∈ table, ∀ q ∈ table, p.2 = q.2 → p.1 = q.1) {k k' : Kind} {a a' r r' : Text}
    (h : (k, a) ∈ table) (h' : (k', a') ∈ table) (heq : a ++ 0x20 :: r = a' ++ 0x20 :: r') :
    k = k' ∧ r = r' := by
  have hclean {k : Kind} {a : Text} (h : (k, a) ∈ table) : ∀ b ∈ a, (b != 0x20) = true := by
    intro b hb
    have hnot := List.all_eq_true.1 hblank _ h
    rw [bne_iff_ne]
    rintro rfl
    simp [hb] at hnot
  have hstop (r : Text) : ∀ b ∈ (0x20 :: r).head?, (b != 0x20) = false := by
    rintro b ⟨⟩
    rfl
  obtain ⟨rfl, hr⟩ := eq_of_append_eq (hclean h) (hclean h') (hstop r) (hstop r') heq
  exact ⟨hkinds _ h _ h' rfl, (List.cons.inj hr).2⟩

theorem operator_unique {k k' : Kind} {a a' r r' : Text} (h : (k, a) ∈ operators)
    (h' : (k', a') ∈ operators) (heq : a ++ 0x20 :: r = a' ++ 0x20 :: r') : k = k' ∧ r = r' :=
  symbol_unique (by decide) (by decide) h h' heq

theorem comparison_unique {k k' : Kind} {a a' r r' : Text} (h : (k, a) ∈ comparisons)
    (h' : (k', a') ∈ comparisons) (heq : a ++ 0x20 :: r = a' ++ 0x20 :: r') : k = k' ∧ r = r' :=
  symbol_unique (by decide) (by decide) h h' heq

/-- A term starts with no parenthesis. -/
theorem ParsesTerm.starts {s : Text} {a : Term} (h : ParsesTerm s a) :
    ∃ b r, s = b :: r ∧ b ≠ 0x28 ∧ b ≠ 0x29 := by
  have hleaf {s : Text} {l : Leaf} (h : ParsesLeaf s l) :
      ∃ b r, s = b :: r ∧ b ≠ 0x28 ∧ b ≠ 0x29 := by
    rcases h.word_or_string with ⟨hsolid, hword⟩ | hstring
    · obtain ⟨b, r, rfl⟩ := List.exists_cons_of_ne_nil hsolid
      have hb := hword b List.mem_cons_self
      refine ⟨b, r, rfl, ?_, ?_⟩ <;> rintro rfl <;> exact absurd hb (by decide)
    · obtain ⟨inner⟩ := hstring
      exact ⟨_, _, rfl, by decide, by decide⟩
  cases h with
  | leaf h => exact hleaf h
  | call h _ =>
    obtain ⟨b, r, rfl, hb⟩ := hleaf (.name h)
    exact ⟨b, _, rfl, hb⟩

theorem ParsesFormula.starts {s : Text} {e : Formula} (h : ParsesFormula s e) :
    ∃ b r, s = b :: r ∧ b ≠ 0x29 := by
  cases h with
  | single h =>
    obtain ⟨b, r, hs, -, hb⟩ := h.starts
    exact ⟨b, r, hs, hb⟩
  | binary _ _ _ => exact ⟨0x28, _, rfl, by decide⟩

/-- Formulas are there, or the next byte closes the list. -/
theorem ParsesFormulas.starts {s : Text} {e : Formula} {rest : Formulas}
    (h : ParsesFormulas s (.cons e rest)) : ∃ b r, s = b :: r ∧ b ≠ 0x29 := by
  cases h with
  | one first => exact first.starts
  | more first _ =>
    obtain ⟨b, r, rfl, hb⟩ := first.starts
    exact ⟨b, _, rfl, hb⟩

mutual
/-- **A term delimits itself.** -/
theorem ParsesTerm.unique {s s' r r' : Text} {a a' : Term} :
    ParsesTerm s a → ParsesTerm s' a' → s ++ r = s' ++ r' → Stops r → Stops r' →
      a = a' ∧ r = r'
  | .leaf h, h', heq, hr, hr' => by
    cases h' with
    | leaf h' =>
      obtain ⟨rfl, rfl⟩ := h.unique h' heq hr.endsWord hr'.endsWord
      exact ⟨rfl, rfl⟩
    | call hname inner =>
      rw [List.append_assoc, openParen_append, List.cons_append] at heq
      obtain ⟨-, rfl⟩ := h.unique (.name hname) heq hr.endsWord (endsWord_openParen _)
      exact absurd (hr 0x28 rfl) (by decide)
  | .call hname inner, h', heq, hr, hr' => by
    rw [List.append_assoc, openParen_append, List.cons_append] at heq
    cases h' with
    | leaf h' =>
      obtain ⟨-, rfl⟩ := h'.unique (.name hname) heq.symm hr'.endsWord (endsWord_openParen _)
      exact absurd (hr' 0x28 rfl) (by decide)
    | call hname' inner' =>
      simp only [List.append_assoc, openParen_append, List.cons_append] at heq
      obtain ⟨hnames, hrest⟩ := (ParsesLeaf.name hname).unique (.name hname') heq
        (endsWord_openParen _) (endsWord_openParen _)
      obtain ⟨rfl, rfl⟩ := inner.unique inner' (List.cons.inj hrest).2
      exact ⟨by rw [Leaf.name.inj hnames], rfl⟩

theorem ParsesFormula.unique {s s' r r' : Text} {e e' : Formula} :
    ParsesFormula s e → ParsesFormula s' e' → s ++ r = s' ++ r' → Stops r → Stops r' →
      e = e' ∧ r = r'
  | .single h, h', heq, hr, hr' => by
    cases h' with
    | single h' =>
      obtain ⟨rfl, rfl⟩ := h.unique h' heq hr hr'
      exact ⟨rfl, rfl⟩
    | binary _ _ _ =>
      obtain ⟨b, t, rfl, hb, -⟩ := h.starts
      exact absurd (List.cons.inj heq).1 hb
  | .binary left hop right, h', heq, hr, hr' => by
    cases h' with
    | single h' =>
      obtain ⟨b, t, rfl, hb, -⟩ := h'.starts
      exact absurd (List.cons.inj heq).1.symm hb
    | binary left' hop' right' =>
      simp only [openParen_append, blank_append, List.cons_append, List.append_assoc] at heq
      obtain ⟨rfl, hmiddle⟩ := left.unique left' (List.cons.inj heq).2
        (stops_cons (by decide) _) (stops_cons (by decide) _)
      obtain ⟨rfl, hright⟩ := operator_unique hop hop' (List.cons.inj hmiddle).2
      simp only [closeParen_append] at hright
      obtain ⟨rfl, hclose⟩ := right.unique right' hright
        (stops_cons (by decide) _) (stops_cons (by decide) _)
      exact ⟨rfl, (List.cons.inj hclose).2⟩

theorem ParsesFormulas.unique {s s' r r' : Text} {a a' : Formulas} :
    ParsesFormulas s a → ParsesFormulas s' a' → s ++ (")" ++ r) = s' ++ (")" ++ r') →
      a = a' ∧ r = r'
  | .none, h', heq => by
    cases a' with
    | nil =>
      cases h'
      exact ⟨rfl, (List.cons.inj heq).2⟩
    | cons e rest =>
      obtain ⟨b, t, rfl, hb⟩ := h'.starts
      exact absurd (List.cons.inj heq).1.symm hb
  | .one first, h', heq => by
    rw [closeParen_append, closeParen_append] at heq
    cases h' with
    | none =>
      obtain ⟨b, t, rfl, hb⟩ := first.starts
      exact absurd (List.cons.inj heq).1 hb
    | one first' =>
      obtain ⟨rfl, hclose⟩ := first.unique first' heq (stops_cons (by decide) _)
        (stops_cons (by decide) _)
      exact ⟨rfl, (List.cons.inj hclose).2⟩
    | more first' _ =>
      rw [List.append_assoc, comma_append, List.cons_append] at heq
      obtain ⟨-, hclose⟩ := first.unique first' heq (stops_cons (by decide) _)
        (stops_cons (by decide) _)
      exact absurd (List.cons.inj hclose).1 (by decide)
  | .more first next, h', heq => by
    rw [List.append_assoc, comma_append, List.cons_append] at heq
    cases h' with
    | none =>
      obtain ⟨b, t, rfl, hb⟩ := first.starts
      exact absurd (List.cons.inj heq).1 hb
    | one first' =>
      rw [closeParen_append _] at heq
      obtain ⟨-, hclose⟩ := first.unique first' heq (stops_cons (by decide) _)
        (stops_cons (by decide) _)
      exact absurd (List.cons.inj hclose).1 (by decide)
    | more first' next' =>
      rw [List.append_assoc, comma_append, List.cons_append] at heq
      obtain ⟨rfl, hnext⟩ := first.unique first' heq (stops_cons (by decide) _)
        (stops_cons (by decide) _)
      obtain ⟨hrest, rfl⟩ := next.unique next' (List.cons.inj hnext).2
      exact ⟨by rw [hrest], rfl⟩
end

/-- **A text is the text of one formula at most.** -/
theorem ParsesFormula.eq {s : Text} {e e' : Formula} (h : ParsesFormula s e)
    (h' : ParsesFormula s e') : e = e' :=
  (h.unique h' (Eq.refl (s ++ [])) stops_nil stops_nil).1

/-- A formula does not go on behind a blank. -/
theorem ParsesFormula.ne_append_blank {s t r : Text} {e e' : Formula} (h : ParsesFormula s e)
    (h' : ParsesFormula t e') : s ≠ t ++ (" " ++ r) := by
  intro heq
  rw [blank_append, ← List.append_nil s] at heq
  obtain ⟨-, hrest⟩ := h.unique h' heq stops_nil (stops_cons (by decide) r)
  cases hrest

/-- **A text is the text of one test at most.** -/
theorem ParsesTest.eq {s s' : Text} {c c' : Test} (h : ParsesTest s c) (h' : ParsesTest s' c')
    (heq : s = s') : c = c' := by
  cases h with
  | plain h =>
    cases h' with
    | plain h' =>
      subst heq
      rw [h.eq h']
    | compare left' _ _ => exact absurd heq (h.ne_append_blank left')
  | compare left hop right =>
    cases h' with
    | plain h' => exact absurd heq.symm (h'.ne_append_blank left)
    | compare left' hop' right' =>
      simp only [blank_append] at heq
      obtain ⟨rfl, hmiddle⟩ := left.unique left' heq (stops_cons (by decide) _)
        (stops_cons (by decide) _)
      obtain ⟨rfl, rfl⟩ := comparison_unique hop hop' (List.cons.inj hmiddle).2
      rw [right.eq right']

end Target
end Tarjuman
