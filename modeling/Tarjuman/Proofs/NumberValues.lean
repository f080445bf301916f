/-
# Numbers keep their values

A number of the source is written in the script character by character: each digit becomes
the Western digit of the same value and the comma becomes a point (`scriptNumber_ofChars`), so
that a numeral of the script comes out (`numeral_of_number`).

A way to write numbers (`Numerals`) has families of ten digits and a mark in front of the
fraction, and gives a numeral its value as a rational number (`Numerals.value?`).  Numerals
that match character by character have one value, whichever ways they are written in
(`Numerals.value?_congr`).  The source mixes three families of digits and the script knows one,
and yet every number of a source has the value of what is written for it
(`numbers_keep_value`).
-/

import Mathlib
import Tarjuman.Proofs.Characters
import Tarjuman.Proofs.DenotedTrees
import Tarjuman.Proofs.TokenLanguages
import Tarjuman.Script.Writer

namespace Tarjuman

open Target

/-- The token has the text of its kind. -/
def Token.HasSpelling (content : Text) (t : Token) : Prop :=
  ∃ rest, Lexeme.Spelled t.kind (t.text content) rest

theorem hasSpelling_of_mem_tokenize {file : FileId} {content : Text}
    (hsize : content.length < 2 ^ 32) :
    ∀ t ∈ (tokenize file content).tokens, t.HasSpelling content := by
  intro t ht
  obtain ⟨before, s, rest, hcontent, hspan, hspelled⟩ := Token.spelledIn_of_mem_tokenize ht
  exact ⟨rest, by rw [Token.text_of_span hcontent hspan hsize]; exact hspelled⟩

/-! ## Numbers -/

theorem digitValue_lt {c : Char} (h : Lexeme.isDigit c = true) : digitValue c < 10 := by
  have hrange := Lexeme.isDigit_iff.1 h
  rw [digitValue]
  split
  · omega
  · split <;> omega

theorem ne_comma_of_isDigit {c : Char} (h : Lexeme.isDigit c = true) : c ≠ ',' := by
  rintro rfl
  exact absurd h (by decide)

/-- The script writes the value of a digit. -/
theorem scriptNumber_digit {c : Char} (h : Lexeme.isDigit c = true) :
    scriptNumber (Utf8.ofChars [c]) = [Text.digit (digitValue c)] := by
  have hlt := digitValue_lt h
  rw [scriptNumber, Utf8.chars_ofChars, List.flatMap_singleton, if_neg (ne_comma_of_isDigit h)]
  rcases Lexeme.isDigit_iff.1 h with hwestern | harabic | hextended
  · have hnone : Latin.arabicDigit? c = none := by
      rw [Latin.arabicDigit?, if_neg (by omega), if_neg (by omega)]
    rw [hnone]
    dsimp only
    rw [Utf8.encode_of_lt (by omega), Text.digit, if_pos hlt, digitValue, if_pos hwestern.2,
      Nat.add_sub_cancel' hwestern.1]
  · have hsome : Latin.arabicDigit? c = some (digitValue c) := by
      rw [Latin.arabicDigit?, if_pos harabic, digitValue, if_neg (by omega), if_pos harabic.2]
    rw [hsome]
  · have hsome : Latin.arabicDigit? c = some (digitValue c) := by
      rw [Latin.arabicDigit?, if_neg (by omega), if_pos hextended, digitValue, if_neg (by omega),
        if_neg (by omega)]
    rw [hsome]

theorem scriptNumber_cons (c : Char) (cs : List Char) :
    scriptNumber (Utf8.ofChars (c :: cs)) =
      scriptNumber (Utf8.ofChars [c]) ++ scriptNumber (Utf8.ofChars cs) := by
  simp only [scriptNumber, Utf8.chars_ofChars, List.flatMap_cons, List.flatMap_nil,
    List.append_nil]

/-- Digits and commas are written one for one. -/
theorem scriptNumber_ofChars {cs : List Char}
    (h : ∀ c ∈ cs, c = ',' ∨ Lexeme.isDigit c = true) :
    scriptNumber (Utf8.ofChars cs) = western cs := by
  induction cs with
  | nil => rfl
  | cons c cs ih =>
    obtain ⟨hc, hcs⟩ := List.forall_mem_cons.1 h
    rw [scriptNumber_cons, ih hcs, western, western, List.map_cons]
    rcases hc with rfl | hc
    · rfl
    · rw [scriptNumber_digit hc, if_neg (ne_comma_of_isDigit hc)]
      rfl

theorem decimal_western {cs : List Char} (hne : cs ≠ [])
    (h : ∀ c ∈ cs, Lexeme.isDigit c = true) : Decimal (western cs) := by
  have hdigit : ∀ d < 10, Text.isDigitByte (Text.digit d) = true := by decide
  refine ⟨fun hnil => hne (List.map_eq_nil_iff.1 hnil), List.forall_mem_map.2 fun c hc => ?_⟩
  rw [if_neg (ne_comma_of_isDigit (h c hc))]
  exact hdigit _ (digitValue_lt (h c hc))

/-- **A number is written as a numeral**, digit for digit. -/
theorem numeral_of_number {rest s : Text} (h : Lexeme.Number rest s) :
    scriptNumber s = western (Utf8.chars s) ∧ Numeral (western (Utf8.chars s)) := by
  cases h with
  | whole digits _ _ =>
    obtain ⟨cs, hne, hcs, rfl⟩ := digits
    rw [scriptNumber_ofChars fun c hc => .inr (hcs c hc), Utf8.chars_ofChars]
    exact ⟨rfl, .whole (decimal_western hne hcs)⟩
  | fraction digits more _ =>
    obtain ⟨cs, hne, hcs, rfl⟩ := digits
    obtain ⟨ds, hne', hds, rfl⟩ := more
    have hchars : Utf8.ofChars cs ++ Text.byte ',' :: Utf8.ofChars ds =
        Utf8.ofChars (cs ++ ',' :: ds) := by
      rw [Utf8.ofChars, Utf8.ofChars, Utf8.ofChars, List.flatMap_append, List.flatMap_cons]
      rfl
    have hall : ∀ c ∈ cs ++ ',' :: ds, c = ',' ∨ Lexeme.isDigit c = true := by
      refine List.forall_mem_append.2 ⟨fun c hc => .inr (hcs c hc), ?_⟩
      exact List.forall_mem_cons.2 ⟨.inl rfl, fun c hc => .inr (hds c hc)⟩
    have hwestern : western (cs ++ ',' :: ds) = western cs ++ "." ++ western ds := by
      rw [western, List.map_append, List.map_cons, List.append_assoc]
      rfl
    rw [hchars, scriptNumber_ofChars hall, Utf8.chars_ofChars, hwestern]
    exact ⟨rfl, .point (decimal_western hne hcs) (decimal_western hne' hds)⟩

/-! ## Values -/

/-- A way to write numbers. -/
structure Numerals where
  /-- Families of ten digits, each in the order of their values. -/
  families : List (List Char)
  /-- What stands before the fraction. -/
  mark : Char
  mark_not_mem : ∀ family ∈ families, mark ∉ family

namespace Numerals

/-- Numbers of the source: digits of three families, mixed at will, and a comma. -/
def source : Numerals where
  families := ["0123456789".toList, "٠١٢٣٤٥٦٧٨٩".toList, "۰۱۲۳۴۵۶۷۸۹".toList]
  mark := ','
  mark_not_mem := by decide

/-- Numbers of the script: Western digits and a point. -/
def script : Numerals where
  families := ["0123456789".toList]
  mark := '.'
  mark_not_mem := by decide

/-- The value of a digit, which is its place in its family. -/
def digit? (m : Numerals) (c : Char) : Option Nat := m.families.findSome? (·.idxOf? c)

/-- The values of one digit or more. -/
def digits? (m : Numerals) (cs : List Char) : Option (List Nat) :=
  if cs = [] then none else cs.mapM m.digit?

/-- The number that the values of digits make, the highest place first. -/
def ofPlaces (ds : List Nat) : Nat := Nat.ofDigits 10 ds.reverse

/-- The rational number that a numeral denotes. -/
def value? (m : Numerals) (cs : List Char) : Option ℚ :=
  match cs.dropWhile (· ≠ m.mark) with
  | [] => (m.digits? cs).map fun ds => (ofPlaces ds : ℚ)
  | _ :: fraction => do
    let ds ← m.digits? (cs.takeWhile (· ≠ m.mark))
    let es ← m.digits? fraction
    return ofPlaces ds + ofPlaces es / 10 ^ es.length

/-- Two characters say the same in two ways to write numbers. -/
inductive Matches (m n : Numerals) (c c' : Char) : Prop where
  | mark (left : c = m.mark) (right : c' = n.mark)
  | digit {d : Nat} (left : m.digit? c = some d) (right : n.digit? c' = some d)

variable {m n : Numerals} {cs cs' : List Char}

theorem digit?_mark (m : Numerals) : m.digit? m.mark = none := by
  rw [digit?, List.findSome?_eq_none_iff]
  intro family hfamily
  rw [List.idxOf?_eq_none_iff]
  exact m.mark_not_mem family hfamily

theorem Matches.digit?_eq {c c' : Char} (h : m.Matches n c c') : m.digit? c = n.digit? c' := by
  cases h with
  | mark left right => rw [left, right, digit?_mark, digit?_mark]
  | digit left right => rw [left, right]

theorem Matches.mark_iff {c c' : Char} (h : m.Matches n c c') : c = m.mark ↔ c' = n.mark := by
  cases h with
  | mark left right => exact iff_of_true left right
  | digit left right =>
    refine iff_of_false ?_ ?_
    · rintro rfl
      rw [digit?_mark] at left
      cases left
    · rintro rfl
      rw [digit?_mark] at right
      cases right

theorem mapM_congr (h : List.Forall₂ (m.Matches n) cs cs') :
    cs.mapM m.digit? = cs'.mapM n.digit? := by
  induction h with
  | nil => rfl
  | cons hhead _ ih => rw [List.mapM_cons, List.mapM_cons, hhead.digit?_eq, ih]

theorem digits?_congr (h : List.Forall₂ (m.Matches n) cs cs') : m.digits? cs = n.digits? cs' := by
  have hnil : cs = [] ↔ cs' = [] := by
    rw [← List.length_eq_zero_iff, ← List.length_eq_zero_iff, h.length_eq]
  simp only [digits?, hnil, mapM_congr h]

/-- Numerals that match do so in front of the mark and behind it. -/
theorem forall₂_cut (h : List.Forall₂ (m.Matches n) cs cs') :
    List.Forall₂ (m.Matches n) (cs.takeWhile (· ≠ m.mark)) (cs'.takeWhile (· ≠ n.mark)) ∧
      List.Forall₂ (m.Matches n) (cs.dropWhile (· ≠ m.mark)) (cs'.dropWhile (· ≠ n.mark)) := by
  induction h with
  | nil => exact ⟨.nil, .nil⟩
  | @cons c c' cs cs' hhead htail ih =>
    by_cases hc : c = m.mark
    · have hc' := hhead.mark_iff.1 hc
      simp only [List.takeWhile_cons, List.dropWhile_cons, hc, hc', ne_eq, not_true_eq_false,
        decide_false, Bool.false_eq_true, if_false]
      exact ⟨.nil, .cons (.mark rfl rfl) htail⟩
    · have hc' := mt hhead.mark_iff.2 hc
      simp only [List.takeWhile_cons, List.dropWhile_cons, hc, hc', ne_eq, not_false_eq_true,
        decide_true, if_true]
      exact ⟨.cons hhead ih.1, ih.2⟩

/-- **Numerals that match have one value.** -/
theorem value?_congr (h : List.Forall₂ (m.Matches n) cs cs') : m.value? cs = n.value? cs' := by
  obtain ⟨hfront, hback⟩ := forall₂_cut h
  rw [value?, value?]
  generalize cs.dropWhile (· ≠ m.mark) = back at hback
  generalize cs'.dropWhile (· ≠ n.mark) = back' at hback
  cases hback with
  | nil => dsimp only; rw [digits?_congr h]
  | cons _ hfraction => dsimp only; rw [digits?_congr hfront, digits?_congr hfraction]

example : source.value? "١2,۳".toList = some (123 / 10) := by cbv

end Numerals

/-! ## Numbers of a source -/

/-- What the script has in the place of a character of a number. -/
def scriptChar (c : Char) : Char :=
  if c = ',' then '.' else Char.ofNat (0x30 + digitValue c)

/-- A digit stands at one of ten places in one of three families. -/
theorem exists_place_of_isDigit {c : Char} (h : Lexeme.isDigit c = true) :
    ∃ first ∈ [0x30, 0x660, 0x6F0], ∃ d < 10, c = Char.ofNat (first + d) := by
  have hplace {first : Nat} (hlow : first ≤ c.toNat) :
      c = Char.ofNat (first + (c.toNat - first)) := by
    rw [Nat.add_sub_cancel' hlow, Char.ofNat_toNat]
  rcases Lexeme.isDigit_iff.1 h with ⟨hlow, hhigh⟩ | ⟨hlow, hhigh⟩ | ⟨hlow, hhigh⟩
  · exact ⟨_, by decide, c.toNat - 0x30, by omega, hplace hlow⟩
  · exact ⟨_, by decide, c.toNat - 0x660, by omega, hplace hlow⟩
  · exact ⟨_, by decide, c.toNat - 0x6F0, by omega, hplace hlow⟩

/-- A digit and what the script has for it are of one value. -/
theorem digit?_of_isDigit {c : Char} (h : Lexeme.isDigit c = true) :
    Numerals.source.digit? c = some (digitValue c) ∧
      Numerals.script.digit? (scriptChar c) = some (digitValue c) ∧
      Utf8.encode (scriptChar c) = [Text.digit (digitValue c)] := by
  have hall : ∀ first ∈ [0x30, 0x660, 0x6F0], ∀ d < 10,
      Numerals.source.digit? (Char.ofNat (first + d)) =
          some (digitValue (Char.ofNat (first + d))) ∧
        Numerals.script.digit? (scriptChar (Char.ofNat (first + d))) =
          some (digitValue (Char.ofNat (first + d))) ∧
        Utf8.encode (scriptChar (Char.ofNat (first + d))) =
          [Text.digit (digitValue (Char.ofNat (first + d)))] := by decide
  obtain ⟨first, hfirst, d, hd, rfl⟩ := exists_place_of_isDigit h
  exact hall first hfirst d hd

theorem matches_scriptChar {c : Char} (h : c = ',' ∨ Lexeme.isDigit c = true) :
    Numerals.source.Matches .script c (scriptChar c) := by
  rcases h with rfl | h
  · exact .mark rfl rfl
  · exact .digit (digit?_of_isDigit h).1 (digit?_of_isDigit h).2.1

theorem encode_scriptChar {c : Char} (h : c = ',' ∨ Lexeme.isDigit c = true) :
    [if c = ',' then 0x2E else Text.digit (digitValue c)] = Utf8.encode (scriptChar c) := by
  rcases h with rfl | h
  · decide
  · rw [if_neg (ne_comma_of_isDigit h), (digit?_of_isDigit h).2.2]

/-- **A number is written character by character**, each of them with its match. -/
theorem forall₂_scriptNumber {cs : List Char} (h : ∀ c ∈ cs, c = ',' ∨ Lexeme.isDigit c = true) :
    scriptNumber (Utf8.ofChars cs) = Utf8.ofChars (cs.map scriptChar) ∧
      List.Forall₂ (Numerals.source.Matches .script) cs (cs.map scriptChar) := by
  constructor
  · rw [scriptNumber_ofChars h, western, List.map_eq_flatMap, Utf8.ofChars, List.flatMap_map]
    exact List.flatMap_congr fun c hc => encode_scriptChar (h c hc)
  · rw [List.forall₂_map_right_iff, List.forall₂_same]
    exact fun c hc => matches_scriptChar (h c hc)

theorem digits?_of_isDigit {cs : List Char} (hne : cs ≠ [])
    (h : ∀ c ∈ cs, Lexeme.isDigit c = true) :
    Numerals.source.digits? cs = some (cs.map digitValue) := by
  have hmap : cs.mapM Numerals.source.digit? = some (cs.map digitValue) := by
    clear hne
    induction cs with
    | nil => rfl
    | cons c cs ih =>
      obtain ⟨hc, hcs⟩ := List.forall_mem_cons.1 h
      rw [List.mapM_cons, (digit?_of_isDigit hc).1, ih hcs]
      rfl
  rw [Numerals.digits?, if_neg hne, hmap]

/-- The characters of a number are digits and at most one comma, and it has a value. -/
theorem exists_value_of_number {rest s : Text} (h : Lexeme.Number rest s) :
    ∃ cs, s = Utf8.ofChars cs ∧ (∀ c ∈ cs, c = ',' ∨ Lexeme.isDigit c = true) ∧
      ∃ q, Numerals.source.value? cs = some q := by
  have hcomma {cs : List Char} (h : ∀ c ∈ cs, Lexeme.isDigit c = true) :
      ∀ c ∈ cs, decide (c ≠ Numerals.source.mark) = true :=
    fun c hc => decide_eq_true (ne_comma_of_isDigit (h c hc))
  cases h with
  | whole digits _ _ =>
    obtain ⟨cs, hne, hcs, rfl⟩ := digits
    refine ⟨cs, rfl, fun c hc => .inr (hcs c hc), ?_⟩
    have hback : cs.dropWhile (· ≠ Numerals.source.mark) = [] :=
      List.dropWhile_eq_nil_iff.2 (hcomma hcs)
    rw [Numerals.value?, hback]
    dsimp only
    rw [digits?_of_isDigit hne hcs]
    exact ⟨_, rfl⟩
  | fraction digits more _ =>
    obtain ⟨cs, hne, hcs, rfl⟩ := digits
    obtain ⟨ds, hne', hds, rfl⟩ := more
    refine ⟨cs ++ ',' :: ds, ?_, ?_, ?_⟩
    · rw [Utf8.ofChars, Utf8.ofChars, Utf8.ofChars, List.flatMap_append, List.flatMap_cons]
      rfl
    · refine List.forall_mem_append.2 ⟨fun c hc => .inr (hcs c hc), ?_⟩
      exact List.forall_mem_cons.2 ⟨.inl rfl, fun c hc => .inr (hds c hc)⟩
    · have hback : (cs ++ ',' :: ds).dropWhile (· ≠ Numerals.source.mark) = ',' :: ds := by
        rw [List.dropWhile_append_of_pos (hcomma hcs)]
        rfl
      have hfront : (cs ++ ',' :: ds).takeWhile (· ≠ Numerals.source.mark) = cs := by
        rw [List.takeWhile_append_of_pos (hcomma hcs)]
        exact List.append_nil cs
      rw [Numerals.value?, hback]
      dsimp only
      rw [hfront, digits?_of_isDigit hne hcs, digits?_of_isDigit hne' hds]
      exact ⟨_, rfl⟩

/-- **Numbers keep their values.**  What is written for a number of a source is a numeral of
Western digits, with at most a point between them.  It has as many characters as the number,
each digit is of the value of the one in its place, whichever family that one is of, and a point
stands exactly where the comma was.  So both denote one rational number. -/
theorem numbers_keep_value (file : FileId) {content : Text} (hsize : content.length < 2 ^ 32)
    {t : Token} (ht : t ∈ (tokenize file content).tokens) (hkind : t.kind = .numberLit) :
    Numeral (scriptNumber (t.text content)) ∧
      ∃ literal script : List Char,
        t.text content = Utf8.ofChars literal ∧
        scriptNumber (t.text content) = Utf8.ofChars script ∧
        List.Forall₂ (Numerals.source.Matches .script) literal script ∧
        ∃ q, Numerals.source.value? literal = some q ∧ Numerals.script.value? script = some q := by
  obtain ⟨rest, hspelled⟩ := hasSpelling_of_mem_tokenize hsize t ht
  rw [hkind] at hspelled
  obtain ⟨htext, hnumeral⟩ := numeral_of_number hspelled
  obtain ⟨cs, hcs, hall, q, hq⟩ := exists_value_of_number hspelled
  obtain ⟨hscript, hmatch⟩ := forall₂_scriptNumber hall
  refine ⟨htext ▸ hnumeral, cs, cs.map scriptChar, hcs, ?_, hmatch, q, hq, ?_⟩
  · rw [hcs, hscript]
  · rw [← Numerals.value?_congr hmatch, hq]

/-- Digits of all three families around a comma. -/
def mixedNumber : Text := "١2,۳"

theorem numbers_keep_value_mixed :
    (⟨.numberLit, 1, ⟨0, 0, 6⟩⟩ : Token) ∈ (tokenize 0 mixedNumber).tokens ∧
      scriptNumber mixedNumber = "12.3" ∧
      ∃ q, Numerals.source.value? (Utf8.chars mixedNumber) = some q ∧
        Numerals.script.value? (Utf8.chars "12.3") = some q := by
  have hmem : (⟨.numberLit, 1, ⟨0, 0, 6⟩⟩ : Token) ∈ (tokenize 0 mixedNumber).tokens := by
    decide +kernel
  have hscript : scriptNumber mixedNumber = "12.3" := by decide
  obtain ⟨-, literal, script, htext, hwritten, -, q, hq, hq'⟩ :=
    numbers_keep_value 0 (by decide) hmem rfl
  have hall : Token.text ⟨.numberLit, 1, ⟨0, 0, 6⟩⟩ mixedNumber = mixedNumber := by decide
  rw [hall] at htext hwritten
  rw [hscript] at hwritten
  refine ⟨hmem, hscript, q, ?_, ?_⟩
  · rw [htext, Utf8.chars_ofChars, hq]
  · rw [hwritten, Utf8.chars_ofChars, hq']

end Tarjuman
