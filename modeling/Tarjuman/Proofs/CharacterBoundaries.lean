/-
# Where characters meet

A text is valid exactly if it is the encoding of some characters (`Utf8.isValid_iff`), and an
offset is a boundary of it if it lies between two of them or at an end (`Utf8.Boundary`).

Lexemes are cut out of a text byte by byte, and yet every cut is a boundary.  Two facts are
behind this.  What follows a valid front is valid if the whole is
(`Utf8.isValid_append`), and a byte below `0x80` is a character, so there is a boundary
on both sides of it (`Utf8.isValid_append_cons`).  A lexeme is made of known characters, or it
ends with such a byte, or such a byte or nothing follows it
(`Lexeme.isValid_of_spelled`, `Lexeme.Trivia.valid`, `Lexeme.RawText.valid`).
-/

import Mathlib.Data.Nat.Basic
import Tarjuman.Proofs.Characters
import Tarjuman.Proofs.TokenLanguages

namespace Tarjuman

namespace Utf8

/-! ## Valid texts -/

theorem isValid_encode_append (c : Char) (r : Text) : isValid (encode c ++ r) = isValid r := by
  rw [isValid, items_encode_append, List.all_cons, Bool.true_and, isValid]

theorem isValid_ofChars_append (cs : List Char) (r : Text) :
    isValid (ofChars cs ++ r) = isValid r := by
  induction cs with
  | nil => rfl
  | cons c cs ih =>
    rw [ofChars, List.flatMap_cons, List.append_assoc, isValid_encode_append, ← ofChars, ih]

/-- A valid text that is not empty starts with a character. -/
theorem exists_encode_of_isValid {b : UInt8} {s : Text} (h : isValid (b :: s) = true) :
    ∃ c r, b :: s = encode c ++ r := by
  cases hdecode : decode? (b :: s) with
  | some c => exact ⟨c, exists_encode_of_decode? hdecode⟩
  | none =>
    rw [isValid, items, itemsFrom, hdecode] at h
    cases h

/-- **The valid texts are the encodings of characters.** -/
theorem isValid_iff {s : Text} : isValid s = true ↔ ∃ cs, s = ofChars cs := by
  constructor
  · intro h
    induction hn : s.length using Nat.strong_induction_on generalizing s with
    | _ n ih =>
      cases s with
      | nil => exact ⟨[], rfl⟩
      | cons b s =>
        obtain ⟨c, r, hs⟩ := exists_encode_of_isValid h
        rw [hs, isValid_encode_append] at h
        have hshort : r.length < n := by
          rw [← hn, hs, List.length_append]
          have := List.length_pos_iff.2 (encode_ne_nil c)
          omega
        obtain ⟨cs, rfl⟩ := ih r.length hshort h rfl
        exact ⟨c :: cs, hs⟩
  · rintro ⟨cs, rfl⟩
    have h := isValid_ofChars_append cs []
    rwa [List.append_nil] at h

/-- **Behind a valid front** the rest decides whether the whole is valid. -/
theorem isValid_append {s : Text} (h : isValid s = true) (r : Text) :
    isValid (s ++ r) = isValid r := by
  obtain ⟨cs, rfl⟩ := isValid_iff.1 h
  exact isValid_ofChars_append cs r

/-! ## Bytes below `0x80` -/

/-- The byte is the encoding of a character on its own. -/
def isSingle (b : UInt8) : Bool := b < 0x80

theorem isSingle_iff {b : UInt8} : isSingle b = true ↔ b.toNat < 0x80 := by
  rw [isSingle, decide_eq_true_eq, UInt8.lt_iff_toNat_lt]
  exact Iff.rfl

theorem exists_encode_of_isSingle {b : UInt8} (h : isSingle b = true) :
    ∃ c, encode c = [b] ∧ c.toNat < 0x80 := by
  rw [isSingle_iff] at h
  have hn : (Char.ofNat b.toNat).toNat = b.toNat := by
    have hvalid : b.toNat.isValidChar := .inl (by omega)
    rw [Char.ofNat, dif_pos hvalid]
    rfl
  have hlt : (Char.ofNat b.toNat).toNat < 0x80 := by omega
  exact ⟨Char.ofNat b.toNat, by rw [encode_of_lt hlt, hn, UInt8.ofNat_toNat], hlt⟩

/-- Such a byte is never a stray one. -/
theorem isSingle_of_decode?_none {b : UInt8} {r : Text} (h : decode? (b :: r) = none) :
    isSingle b = false := by
  refine Bool.eq_false_iff.2 fun hb => ?_
  obtain ⟨c, hc, -⟩ := exists_encode_of_isSingle hb
  have hdecode := decode?_encode_append c r
  rw [hc, List.singleton_append, h] at hdecode
  cases hdecode

theorem isValid_cons {b : UInt8} (h : isSingle b = true) (r : Text) :
    isValid (b :: r) = isValid r := by
  obtain ⟨c, hc, -⟩ := exists_encode_of_isSingle h
  rw [← List.singleton_append, ← hc, isValid_encode_append]

theorem isValid_of_isSingle {s : Text} (h : ∀ b ∈ s, isSingle b = true) : isValid s = true := by
  induction s with
  | nil => rfl
  | cons b s ih =>
    rw [List.forall_mem_cons] at h
    rw [isValid_cons h.1, ih h.2]

/-- Only the first byte of an encoding can be such a byte. -/
theorem not_isSingle_of_mem_tail {c : Char} : ∀ b ∈ (encode c).tail, isSingle b = false := by
  have htail {b : UInt8} {n : Nat} (h : b.toNat = n % 64 + 128) : isSingle b = false := by
    rw [← Bool.not_eq_true, isSingle_iff]
    omega
  have hlayout := layout_encode c
  generalize encode c = p at hlayout
  cases hlayout with
  | one => exact List.forall_mem_nil _
  | two _ _ _ last => exact List.forall_mem_singleton.2 (htail last)
  | three _ _ _ second last =>
    exact List.forall_mem_cons.2 ⟨htail second, List.forall_mem_singleton.2 (htail last)⟩
  | four _ _ second third last =>
    exact List.forall_mem_cons.2 ⟨htail second,
      List.forall_mem_cons.2 ⟨htail third, List.forall_mem_singleton.2 (htail last)⟩⟩

/-- What stands in a valid text before such a byte is valid. -/
theorem isValid_of_append_cons {s r : Text} {b : UInt8} (hb : isSingle b = true)
    (h : isValid (s ++ b :: r) = true) : isValid s = true := by
  obtain ⟨cs, hcs⟩ := isValid_iff.1 h
  clear h
  induction cs generalizing s with
  | nil => exact absurd hcs (by simp [ofChars])
  | cons c cs ih =>
    rw [ofChars, List.flatMap_cons] at hcs
    rcases List.append_eq_append_iff.1 hcs with ⟨middle, hc, hrest⟩ | ⟨behind, hs, hcs⟩
    · cases s with
      | nil => rfl
      | cons a s =>
        -- The byte would lie inside of the encoding of `c`.
        cases middle with
        | nil =>
          rw [List.append_nil] at hc
          have hone := isValid_encode_append c []
          rw [List.append_nil, hc] at hone
          exact hone.trans rfl
        | cons a' middle =>
          obtain ⟨rfl, -⟩ := List.cons_eq_cons.1 hrest
          have hmem : b ∈ (encode c).tail := by
            rw [hc]
            exact List.mem_append_right s List.mem_cons_self
          rw [not_isSingle_of_mem_tail b hmem] at hb
          cases hb
    · rw [hs, isValid_encode_append]
      exact ih hcs.symm

/-- **A byte below `0x80` splits a valid text** into two. -/
theorem isValid_append_cons {s r : Text} {b : UInt8} (hb : isSingle b = true)
    (h : isValid (s ++ b :: r) = true) : isValid s = true ∧ isValid r = true := by
  have hs := isValid_of_append_cons hb h
  rw [isValid_append hs, isValid_cons hb] at h
  exact ⟨hs, h⟩

/-- A valid text can be cut before such a byte and at its end. -/
theorem isValid_of_stops {s r : Text} (hstop : ∀ b ∈ r.head?, isSingle b = true)
    (h : isValid (s ++ r) = true) : isValid s = true := by
  cases r with
  | nil => rwa [List.append_nil] at h
  | cons b r => exact (isValid_append_cons (hstop b rfl) h).1

/-! ## Boundaries -/

/-- The offset `n` of the text lies between two characters or at an end. -/
def Boundary (s : Text) (n : Nat) : Prop :=
  ∃ before behind : List Char, s = ofChars before ++ ofChars behind ∧ n = (ofChars before).length

theorem boundary_iff {s : Text} {n : Nat} : Boundary s n ↔
    n ≤ s.length ∧ isValid (s.take n) = true ∧ isValid (s.drop n) = true := by
  constructor
  · rintro ⟨before, behind, rfl, rfl⟩
    rw [List.take_left, List.drop_left, List.length_append]
    exact ⟨Nat.le_add_right _ _, isValid_iff.2 ⟨before, rfl⟩, isValid_iff.2 ⟨behind, rfl⟩⟩
  · rintro ⟨hle, hfront, hback⟩
    obtain ⟨before, hbefore⟩ := isValid_iff.1 hfront
    obtain ⟨behind, hbehind⟩ := isValid_iff.1 hback
    refine ⟨before, behind, ?_, ?_⟩
    · rw [← hbefore, ← hbehind, List.take_append_drop]
    · rw [← hbefore, List.length_take_of_le hle]

theorem boundary_zero {s : Text} (h : isValid s = true) : Boundary s 0 :=
  boundary_iff.2 ⟨Nat.zero_le _, rfl, h⟩

theorem boundary_length {s : Text} (h : isValid s = true) : Boundary s s.length :=
  boundary_iff.2 ⟨le_rfl, by rwa [List.take_length], by rw [List.drop_length]; rfl⟩

namespace Boundary

variable {s : Text} {n : Nat}

theorem isValid_drop (h : Boundary s n) : isValid (s.drop n) = true := (boundary_iff.1 h).2.2

/-- A valid text between a boundary and the rest leads to another boundary. -/
theorem add (h : Boundary s n) {a r : Text} (hsplit : s.drop n = a ++ r)
    (ha : isValid a = true) : Boundary s (n + a.length) := by
  obtain ⟨hle, hfront, hback⟩ := boundary_iff.1 h
  have hlen := congrArg List.length hsplit
  rw [List.length_drop, List.length_append] at hlen
  rw [hsplit, isValid_append ha] at hback
  rw [boundary_iff, List.take_add, ← List.drop_drop, hsplit, List.take_left, List.drop_left,
    isValid_append hfront]
  exact ⟨by omega, ha, hback⟩

/-- Between two boundaries the text is valid. -/
theorem isValid_between (h : Boundary s n) {m : Nat} (h' : Boundary s (n + m)) :
    isValid ((s.drop n).take m) = true := by
  have hfront := (boundary_iff.1 h).2.1
  have hwhole := (boundary_iff.1 h').2.1
  rwa [List.take_add, isValid_append hfront] at hwhole

end Boundary

end Utf8

/-! ## Lexemes end where characters end -/

namespace Lexeme

open Utf8 (isValid isSingle isValid_cons isValid_append)

theorem isSingle_of_isBlank {b : UInt8} (h : isBlank b = true) : isSingle b = true := by
  simp only [isBlank, Bool.or_eq_true, beq_iff_eq] at h
  rcases h with ((rfl | rfl) | rfl) | rfl <;> rfl

/-- Trivia in front of a rest, both together valid, is valid. -/
theorem Trivia.valid {s rest : Text} (h : Trivia s rest) (hvalid : isValid (s ++ rest) = true) :
    isValid s = true := by
  induction h with
  | nil => rfl
  | blank hblank more ih =>
    have hsingle := isSingle_of_isBlank hblank
    rw [List.cons_append, isValid_cons hsingle] at hvalid
    rw [isValid_cons hsingle, ih hvalid]
  | @comment body s rest line stop more ih =>
    have hstrokes : isValid (Text.ofString "//") = true := by decide
    have hsingle : isSingle Cursor.lineFeed = true := rfl
    rw [List.append_assoc, isValid_append hstrokes, List.append_assoc] at hvalid
    have hbody : isValid body = true :=
      Utf8.isValid_of_stops (fun b hb => stop b hb ▸ hsingle) hvalid
    rw [isValid_append hbody] at hvalid
    rw [isValid_append hstrokes, isValid_append hbody, ih hvalid]

theorem isValid_of_digits {s : Text} (h : Digits s) : isValid s = true := by
  obtain ⟨cs, -, -, rfl⟩ := h
  exact Utf8.isValid_iff.2 ⟨cs, rfl⟩

theorem Number.valid {s rest : Text} (h : Number rest s) : isValid s = true := by
  cases h with
  | whole digits => exact isValid_of_digits digits
  | fraction digits more =>
    rw [isValid_append (isValid_of_digits digits), isValid_cons rfl, isValid_of_digits more]

theorem StringText.valid {s rest : Text} (h : StringText s)
    (hvalid : isValid (s ++ rest) = true) : isValid s = true := by
  cases h with
  | @intro body inner =>
    have hquote : isSingle quote = true := rfl
    rw [List.cons_append, isValid_cons hquote, List.append_assoc, List.singleton_append] at hvalid
    have hbody := (Utf8.isValid_append_cons hquote hvalid).1
    rw [isValid_cons hquote, isValid_append hbody, isValid_cons hquote]
    rfl

theorem Identifier.valid {s rest : Text} (h : Identifier s rest)
    (hvalid : isValid (s ++ rest) = true) : isValid s = true := by
  have hseparators : separators.all isSingle = true := by decide
  rw [List.all_eq_true] at hseparators
  exact Utf8.isValid_of_stops (fun b hb => hseparators b (h.stops b hb)) hvalid

theorem Operator.valid {kind : Kind} {s rest : Text} (h : Operator kind s rest) :
    isValid s = true := by
  have hall : ∀ o ∈ operators, isValid (Text.ofString o.1) = true := by decide
  obtain ⟨spelling, hmem, rfl⟩ := h.spelled
  exact hall _ (mem_operators hmem)

theorem KeywordText.valid {kind : Kind} {s rest : Text} (h : KeywordText kind rest s) :
    isValid s = true := by
  have hall : ∀ k ∈ Keyword.table, isValid k.spelling = true := by decide
  cases h with
  | spaced known =>
    rw [isValid_append (hall _ known)]
    rfl
  | bare known => exact hall _ known

/-- **The text of a token is valid** where it and what follows it are, a raw literal apart. -/
theorem isValid_of_spelled {kind : Kind} {s rest : Text} (h : Spelled kind s rest)
    (hkind : kind ≠ .rawLit) (hvalid : isValid (s ++ rest) = true) : isValid s = true := by
  cases kind with
  | numberLit => exact Number.valid h
  | stringLit => exact StringText.valid h hvalid
  | ident => exact Identifier.valid h hvalid
  | rawLit => exact absurd rfl hkind
  | endOfInput => rw [h.1]; rfl
  | invalid | unknown => exact h.elim
  | lparen | rparen | comma | bang | bangEq | assign | eqEq | gt | gtEq | lt | ltEq | plus
  | minus | star | slash => exact Operator.valid h
  | _ => exact KeywordText.valid h

/-- **A raw literal is cut at characters**: behind the blanks it starts with, behind what is
kept of it, and at its end. -/
theorem RawText.valid {whole l core rest : Text} (h : RawText whole l core)
    (hvalid : isValid (whole ++ rest) = true) : isValid whole = true ∧
      ∃ front behind, whole = front ++ (core ++ behind) ∧ front.length = 2 + l.length ∧
        isValid front = true ∧ isValid core = true := by
  cases h with
  | @intro inner _ _ r dash braces blanks tail =>
    have hopen : isValid (Text.ofString "-\x7b") = true := by decide
    have hclose : isSingle closeBrace = true := rfl
    have hdash : isValid dash = true := by
      rcases tail with rfl | rfl <;> decide
    rw [List.append_assoc, isValid_append hopen, List.append_assoc, List.cons_append] at hvalid
    have hinner := (Utf8.isValid_append_cons hclose hvalid).1
    have hl : isValid l = true :=
      Utf8.isValid_of_isSingle fun b hb => isSingle_of_isBlank (blanks.left b hb)
    have hcore : isValid core = true := by
      rw [blanks.split, isValid_append hl] at hinner
      refine Utf8.isValid_of_stops (fun b hb => ?_) hinner
      exact isSingle_of_isBlank (blanks.right b (List.mem_of_head? hb))
    refine ⟨?_, Text.ofString "-\x7b" ++ l, r ++ closeBrace :: dash, ?_, ?_, ?_, hcore⟩
    · rw [isValid_append hopen, isValid_append hinner, isValid_cons hclose, hdash]
    · rw [blanks.split]
      simp only [List.append_assoc]
    · rw [List.length_append]
      rfl
    · rw [isValid_append hopen, hl]

end Lexeme
end Tarjuman
