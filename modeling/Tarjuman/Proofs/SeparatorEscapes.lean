/-
# Quoted texts as separators

A text is quoted item by item: a character that can be shown stands for itself, quotes and
backslashes have a backslash before them, and everything else is written by a letter or by its code.
Each way to write an item is read back as the item's bytes, whatever follows (`Quoted.Decodes`), so
reading undoes quoting for every string of bytes (`Quoted.decode?_encode`).

The value of the option for separators takes another way: it is taken as it is if no backslash is in
it, and otherwise each double quote gets a backslash before it is read.  Both ways agree on what has
no double quote (`Quoted.Spells`).  A quoted double quote has a backslash already; the second one
makes it a backslash and a bare quote, and that is refused (`separatorOf_quoted`).
-/

import Mathlib.Algebra.Group.Nat.Defs
import Mathlib.Data.List.Basic
import Mathlib.Data.Nat.Basic
import Mathlib.Order.Basic
import Tarjuman.Command.Value
import Tarjuman.Proofs.CharacterBoundaries
import Tarjuman.Proofs.StringLiterals

namespace Tarjuman

/-! ## Items of a text -/

namespace Utf8

/-- What the items of a text take up is the text. -/
theorem bytes_itemsFrom (k : Nat) (s : Text) : (itemsFrom k s).flatMap Item.bytes = s.drop k := by
  fun_induction itemsFrom k s with
  | case1 k => rw [List.flatMap_nil, List.drop_nil]
  | case2 k b r ih => exact ih
  | case3 b r c hdecode ih =>
    rw [List.flatMap_cons, ih, List.drop_zero]
    exact encode_append_drop hdecode
  | case4 b r hdecode ih => exact congrArg (b :: ·) ih

theorem bytes_items (s : Text) : (items s).flatMap Item.bytes = s := bytes_itemsFrom 0 s

theorem not_isSingle_of_stray {k : Nat} {s : Text} {b : UInt8} (h : .stray b ∈ itemsFrom k s) :
    isSingle b = false := by
  fun_induction itemsFrom k s with
  | case1 k => cases h
  | case2 k b r ih => exact ih h
  | case3 b r c hdecode ih => exact ih ((List.mem_cons.1 h).resolve_left (by simp))
  | case4 b r hdecode ih =>
    rcases List.mem_cons.1 h with h | h
    · obtain rfl := Item.stray.inj h
      exact isSingle_of_decode?_none hdecode
    · exact ih h

/-- An encoding that holds a byte of a single one is that byte. -/
theorem encode_eq_of_mem {b : UInt8} (hb : isSingle b = true) {c : Char} (h : b ∈ encode c) :
    encode c = [b] := by
  obtain ⟨a, t, ht⟩ := List.exists_cons_of_ne_nil (encode_ne_nil c)
  have htail := not_isSingle_of_mem_tail (c := c)
  rw [ht] at h htail
  rcases List.mem_cons.1 h with rfl | hmem
  · obtain ⟨d, hd, -⟩ := exists_encode_of_isSingle hb
    have hdecode := decode?_encode_append d t
    rw [hd, List.singleton_append, ← ht, ← List.append_nil (encode c),
      decode?_encode_append] at hdecode
    rw [Option.some.inj hdecode, hd]
  · rw [htail b hmem] at hb
    cases hb

theorem eq_of_encode_append {c d : Char} {r t : Text} (h : encode c ++ r = encode d ++ t) :
    c = d := by
  have hdecode := decode?_encode_append c r
  rw [h, decode?_encode_append] at hdecode
  exact (Option.some.inj hdecode).symm

theorem isSingle_byte {c : Char} (hc : c.toNat < 0x80) : isSingle (Text.byte c) = true :=
  isSingle_iff.2 ((toNat_first (by omega)).trans_lt hc)

/-- Only the character itself has its byte in the encoding. -/
theorem eq_of_byte_mem {c d : Char} (hd : d.toNat < 0x80) (h : Text.byte d ∈ encode c) : c = d := by
  have hd' : encode d = [Text.byte d] := encode_of_lt hd
  refine eq_of_encode_append (r := []) (t := []) ?_
  rw [encode_eq_of_mem (isSingle_byte hd) h, hd']

/-- A character of one byte is in a text if its byte is. -/
theorem char_mem_items {c : Char} (hc : c.toNat < 0x80) {s : Text} :
    .char c ∈ items s ↔ Text.byte c ∈ s := by
  constructor
  · intro h
    rw [← bytes_items s]
    refine List.mem_flatMap.2 ⟨_, h, ?_⟩
    rw [Item.bytes, encode_of_lt hc]
    exact List.mem_singleton_self _
  · intro h
    rw [← bytes_items s] at h
    obtain ⟨x, hx, hmem⟩ := List.mem_flatMap.1 h
    cases x with
    | char d => exact eq_of_byte_mem hc hmem ▸ hx
    | stray b =>
      have hsingle := isSingle_byte hc
      rw [List.mem_singleton.1 hmem, not_isSingle_of_stray hx] at hsingle
      cases hsingle

end Utf8

namespace Text

theorem replace_cons (q b : UInt8) (new s : Text) :
    replace (b :: s) [q] new = (if q = b then new else [b]) ++ replace s [q] new := by
  rw [replace, replaceFrom, List.isPrefixOf_cons_cons, List.isPrefixOf_nil_left, Bool.and_true]
  by_cases hq : q = b
  · rw [if_pos (beq_iff_eq.2 hq), if_pos hq]
    rfl
  · rw [if_neg (by rwa [beq_iff_eq]), if_neg hq]
    rfl

/-- A byte is replaced wherever it stands. -/
theorem replace_append (q : UInt8) (new s t : Text) :
    replace (s ++ t) [q] new = replace s [q] new ++ replace t [q] new := by
  induction s with
  | nil => rfl
  | cons b s ih => rw [List.cons_append, replace_cons, replace_cons, ih, List.append_assoc]

theorem replace_of_not_mem {q : UInt8} {s : Text} (h : q ∉ s) (new : Text) :
    replace s [q] new = s := by
  induction s with
  | nil => rfl
  | cons b s ih =>
    rw [List.mem_cons, not_or] at h
    obtain ⟨hb, hs⟩ := h
    rw [replace_cons, if_neg hb, ih hs, List.singleton_append]

end Text

namespace Quoted

open Utf8 (Item)

/-! ## Ways to write an item -/

/-- An item inside quotes. -/
def encodeItem : Item → Text
  | .char c => encodeChar c
  | .stray b => hexByte b

theorem encode_eq_flatMap (s : Text) : encode s = (Utf8.items s).flatMap encodeItem := by
  rw [encode]
  congr 1

/-! ## Steps of the reader -/

theorem decodeFrom_succ (k : Nat) (b : UInt8) (r : Text) :
    decodeFrom (k + 1) (b :: r) = (decodeFrom k r).map (b :: ·) := rfl

/-- Codes are followed by two, four or eight digits. -/
theorem decodeFrom_code (r : Text) :
    (∀ d₁ d₂, decodeFrom 0 (Text.byte '\\' :: Text.byte 'x' :: d₁ :: d₂ :: r) =
      (hexValue? [d₁, d₂]).bind fun n => (decodeFrom 0 r).map (n.toUInt8 :: ·)) ∧
    (∀ d₁ d₂ d₃ d₄, decodeFrom 0 (Text.byte '\\' :: Text.byte 'u' :: d₁ :: d₂ :: d₃ :: d₄ :: r) =
      (codePoint? [d₁, d₂, d₃, d₄]).bind fun s => (decodeFrom 0 r).map (s ++ ·)) ∧
    ∀ d₁ d₂ d₃ d₄ d₅ d₆ d₇ d₈, decodeFrom 0 (Text.byte '\\' :: Text.byte 'U' ::
        d₁ :: d₂ :: d₃ :: d₄ :: d₅ :: d₆ :: d₇ :: d₈ :: r) =
      (codePoint? [d₁, d₂, d₃, d₄, d₅, d₆, d₇, d₈]).bind fun s => (decodeFrom 0 r).map (s ++ ·) := by
  refine ⟨fun d₁ d₂ => ?_, fun d₁ d₂ d₃ d₄ => ?_, fun d₁ d₂ d₃ d₄ d₅ d₆ d₇ d₈ => ?_⟩ <;>
    rw [decodeFrom.eq_def] <;> dsimp only
  · rw [if_pos rfl, if_pos rfl]
    cases decodeFrom 0 r <;> rfl
  · rw [if_pos rfl, if_neg (by decide), if_pos rfl]
    cases decodeFrom 0 r <;> rfl
  · rw [if_pos rfl, if_neg (by decide), if_neg (by decide), if_pos rfl]
    cases decodeFrom 0 r <;> rfl

/-- A byte other than a backslash is refused, or it is the first of a character. -/
theorem decodeFrom_bare {b : UInt8} (hslash : b ≠ Text.byte '\\') (r : Text) :
    decodeFrom 0 (b :: r) =
      if b = Text.byte '"' ∨ b = 0x0A then none
      else (Utf8.decode? (b :: r)).elim ((decodeFrom 0 r).map (Utf8.encode Utf8.replacement ++ ·))
        fun c => (decodeFrom (c.utf8Size - 1) r).map (b :: ·) := by
  rw [decodeFrom.eq_def]
  dsimp only
  rw [if_neg hslash]
  cases Utf8.decode? (b :: r) <;> rfl

/-- `w` is read as `t`, whatever follows. -/
def Decodes (w t : Text) : Prop := ∀ r, decodeFrom 0 (w ++ r) = (decodeFrom 0 r).map (t ++ ·)

theorem Decodes.append {w w' t t' : Text} (h : Decodes w t) (h' : Decodes w' t') :
    Decodes (w ++ w') (t ++ t') := by
  intro r
  rw [List.append_assoc, h, h', Option.map_map]
  congr 1
  funext u
  exact (List.append_assoc t t' u).symm

theorem Decodes.decode? {w t : Text} (h : Decodes w t) : Quoted.decode? w = some t := by
  have hw := h []
  rw [List.append_nil, show decodeFrom 0 [] = some [] from rfl, Option.map_some,
    List.append_nil] at hw
  exact hw

/-- Bytes of a character that was accepted stand for themselves. -/
theorem decodeFrom_append (w r : Text) :
    decodeFrom w.length (w ++ r) = (decodeFrom 0 r).map (w ++ ·) := by
  induction w with
  | nil => exact Option.map_id'.symm
  | cons b w ih =>
    rw [List.length_cons, List.cons_append, decodeFrom_succ, ih, Option.map_map]
    rfl

/-- A character stands for itself if its first byte has no meaning of its own. -/
theorem Decodes.self {c : Char} {b : UInt8} {t : Text} (ht : Utf8.encode c = b :: t)
    (hslash : b ≠ Text.byte '\\') (hquote : ¬ (b = Text.byte '"' ∨ b = 0x0A)) :
    Decodes (Utf8.encode c) (Utf8.encode c) := by
  intro r
  have hdecode := Utf8.decode?_encode_append c r
  have hlength := Utf8.length_encode c
  rw [ht, List.cons_append] at hdecode ⊢
  rw [ht, List.length_cons] at hlength
  rw [decodeFrom_bare hslash, if_neg hquote, hdecode, Option.elim_some, ← hlength,
    Nat.add_sub_cancel, decodeFrom_append, Option.map_map]
  rfl

/-- The letter starts no code. -/
def isPlainLetter (e : UInt8) : Bool :=
  e != Text.byte 'x' && e != Text.byte 'u' && e != Text.byte 'U' && !(0x30 ≤ e && e ≤ 0x37)

theorem decodeFrom_letter {e : UInt8} (h : isPlainLetter e = true) (r : Text) :
    decodeFrom 0 (Text.byte '\\' :: e :: r) =
      if e = Text.byte '\\' ∨ e = Text.byte '"' then (decodeFrom 0 r).map (e :: ·)
      else (letters.find? (Text.byte ·.1 == e)).bind fun p => (decodeFrom 0 r).map (p.2 :: ·) := by
  simp only [isPlainLetter, Bool.and_eq_true, bne_iff_ne, Bool.not_eq_true'] at h
  obtain ⟨⟨⟨hx, hu⟩, hU⟩, hoctal⟩ := h
  rw [decodeFrom.eq_def]
  dsimp only
  rw [if_pos rfl, if_neg hx, if_neg hu, if_neg hU, hoctal, if_neg Bool.false_ne_true]
  split
  · rfl
  · cases letters.find? (Text.byte ·.1 == e) <;> rfl

theorem decodes_letters : ∀ p ∈ letters, Decodes [Text.byte '\\', Text.byte p.1] [p.2] := by
  intro p hp r
  have hfacts : ∀ p ∈ letters, isPlainLetter (Text.byte p.1) = true ∧
      ¬ (Text.byte p.1 = Text.byte '\\' ∨ Text.byte p.1 = Text.byte '"') ∧
      letters.find? (Text.byte ·.1 == Text.byte p.1) = some p := by
    decide
  obtain ⟨hplain, hmark, hfind⟩ := hfacts p hp
  exact (decodeFrom_letter hplain r).trans (by rw [if_neg hmark, hfind]; rfl)

/-- A backslash lets quotes and backslashes stand for themselves. -/
theorem decodes_mark {e : UInt8} (h : e = Text.byte '"' ∨ e = Text.byte '\\') :
    Decodes [Text.byte '\\', e] [e] := by
  intro r
  have hplain : isPlainLetter e = true := by rcases h with rfl | rfl <;> decide
  exact (decodeFrom_letter hplain r).trans (if_pos h.symm)

/-- A double quote behind two backslashes is bare. -/
theorem decodeFrom_slash_quote (r : Text) :
    decodeFrom 0 (Text.byte '\\' :: Text.byte '\\' :: Text.byte '"' :: r) = none := by
  rw [decodeFrom_letter (by decide), if_pos (.inl rfl), decodeFrom_bare (by decide),
    if_pos (.inl rfl), Option.map_none]

theorem hexDigit?_digit : ∀ d < 16, Text.hexDigit? (Text.digit d) = some d := by decide

theorem hexValue?_digits {ds : List Nat} (h : ∀ d ∈ ds, d < 16) :
    hexValue? (ds.map Text.digit) = some (Text.ofHex ds) := by
  rw [hexValue?, Text.ofHex]
  generalize 0 = n
  induction ds generalizing n with
  | nil => rfl
  | cons d ds ih =>
    obtain ⟨hd, hds⟩ := List.forall_mem_cons.1 h
    rw [List.map_cons, List.foldlM_cons, hexDigit?_digit d hd]
    exact ih hds (16 * n + d)

theorem codePoint?_digits {ds : List Nat} (h : ∀ d ∈ ds, d < 16) {c : Char}
    (hvalue : Text.ofHex ds = c.toNat) :
    codePoint? (ds.map Text.digit) = some (Utf8.encode c) := by
  rw [codePoint?, hexValue?_digits h, hvalue, Option.bind_some, Utf8.scalar?_toNat, Option.map_some]

theorem decodes_hexByte (b : UInt8) : Decodes (hexByte b) [b] := by
  intro r
  obtain ⟨ds, htext, hlength, hlt, hvalue⟩ :=
    Text.exists_hexPadded (w := 1) (n := b.toNat) (UInt8.toNat_lt b)
  have hhex := hexValue?_digits hlt
  obtain ⟨h, l, rfl⟩ := List.length_eq_two.1 hlength
  simp only [List.map_cons, List.map_nil] at hhex
  rw [hexByte, htext]
  refine ((decodeFrom_code r).1 (Text.digit h) (Text.digit l)).trans ?_
  rw [hhex, hvalue, Option.bind_some, Nat.toUInt8_eq, UInt8.ofNat_toNat]
  rfl

theorem decodes_four {c : Char} (h : c.toNat < 0x10000) :
    Decodes ("\\u" ++ Text.hexPadded 4 c.toNat) (Utf8.encode c) := by
  intro r
  obtain ⟨ds, htext, hlength, hlt, hvalue⟩ :=
    Text.exists_hexPadded (w := 3) (n := c.toNat) (by omega)
  have hcode := codePoint?_digits hlt hvalue
  obtain ⟨d₁, d₂, d₃, d₄, rfl⟩ := List.length_eq_four.1 hlength
  simp only [List.map_cons, List.map_nil] at hcode
  rw [htext]
  refine ((decodeFrom_code r).2.1 _ _ _ _).trans ?_
  rw [hcode, Option.bind_some]

theorem decodes_eight (c : Char) :
    Decodes ("\\U" ++ Text.hexPadded 8 c.toNat) (Utf8.encode c) := by
  intro r
  have hc := Utf8.toNat_lt c
  obtain ⟨ds, htext, hlength, hlt, hvalue⟩ :=
    Text.exists_hexPadded (w := 7) (n := c.toNat) (by omega)
  have hcode := codePoint?_digits hlt hvalue
  obtain ⟨d₁, d₂, d₃, d₄, hfront⟩ :=
    List.length_eq_four.1 (show (ds.take 4).length = 4 by rw [List.length_take]; omega)
  obtain ⟨d₅, d₆, d₇, d₈, hback⟩ :=
    List.length_eq_four.1 (show (ds.drop 4).length = 4 by rw [List.length_drop]; omega)
  obtain rfl : ds = [d₁, d₂, d₃, d₄] ++ [d₅, d₆, d₇, d₈] := by
    rw [← hfront, ← hback, List.take_append_drop]
  simp only [List.cons_append, List.nil_append, List.map_cons, List.map_nil] at hcode
  rw [htext]
  refine ((decodeFrom_code r).2.2 _ _ _ _ _ _ _ _).trans ?_
  rw [hcode, Option.bind_some]

/-! ## Items without double quotes -/

/-- `w` is read as `t` and has no double quote; without a backslash it is `t` itself. -/
structure Spells (w t : Text) : Prop where
  decodes : Decodes w t
  bare : Text.byte '"' ∉ w
  plain : Text.byte '\\' ∉ w → w = t

namespace Spells

theorem nil : Spells [] [] := ⟨fun _ => Option.map_id'.symm, List.not_mem_nil, fun _ => rfl⟩

theorem append {w w' t t' : Text} (h : Spells w t) (h' : Spells w' t') :
    Spells (w ++ w') (t ++ t') := by
  refine ⟨h.decodes.append h'.decodes, ?_, fun hslash => ?_⟩
  · rw [List.mem_append, not_or]
    exact ⟨h.bare, h'.bare⟩
  · rw [List.mem_append, not_or] at hslash
    rw [h.plain hslash.1, h'.plain hslash.2]

/-- What starts with a backslash. -/
theorem escape {w t : Text} (h : Decodes (Text.byte '\\' :: w) t) (hbare : Text.byte '"' ∉ w) :
    Spells (Text.byte '\\' :: w) t := by
  refine ⟨h, ?_, fun hslash => absurd List.mem_cons_self hslash⟩
  rw [List.mem_cons, not_or]
  exact ⟨by decide, hbare⟩

end Spells

theorem not_mem_digits {w n : Nat} (h : n < 16 ^ (w + 1)) :
    Text.byte '"' ∉ Text.hexPadded (w + 1) n := by
  obtain ⟨ds, htext, -, hlt, -⟩ := Text.exists_hexPadded h
  rw [htext, List.mem_map]
  rintro ⟨d, hd, heq⟩
  have hdigit : ∀ d < 16, Text.digit d ≠ Text.byte '"' := by decide
  exact hdigit d (hlt d hd) heq

theorem spells_hexByte (b : UInt8) : Spells (hexByte b) [b] := by
  refine .escape (w := Text.byte 'x' :: Text.hexPadded 2 b.toNat) (decodes_hexByte b) ?_
  rw [List.mem_cons, not_or]
  exact ⟨by decide, not_mem_digits (w := 1) (UInt8.toNat_lt b)⟩

/-- A character that can be shown and has no meaning of its own. -/
theorem spells_self {c : Char} (hprint : Unicode.isPrintable c = true) (hquote : c ≠ '"')
    (hslash : c ≠ '\\') : Spells (Utf8.encode c) (Utf8.encode c) := by
  have hne {d : Char} (hd : d.toNat < 0x80) (h : c ≠ d) : Text.byte d ∉ Utf8.encode c :=
    fun hmem => h (Utf8.eq_of_byte_mem hd hmem)
  have hline : c ≠ '\n' := by
    rintro rfl
    exact absurd hprint (by decide)
  obtain ⟨b, t, ht⟩ := List.exists_cons_of_ne_nil (Utf8.encode_ne_nil c)
  have hb {d : Char} (hd : d.toNat < 0x80) (h : c ≠ d) : b ≠ Text.byte d := by
    rintro rfl
    exact hne hd h (ht ▸ List.mem_cons_self)
  refine ⟨.self ht (hb (by decide) hslash) ?_, hne (by decide) hquote, fun _ => rfl⟩
  exact not_or.2 ⟨hb (by decide) hquote, hb (d := '\n') (by decide) hline⟩

/-- **A character other than a double quote is spelled**, one case for each way to write it. -/
theorem spells_encodeChar {c : Char} (hquote : c ≠ '"') : Spells (encodeChar c) (Utf8.encode c) := by
  rw [encodeChar]
  split
  next hc =>
    obtain rfl := hc.resolve_left hquote
    exact .escape (decodes_mark (.inr rfl)) (by decide)
  next hc =>
    rw [not_or] at hc
    split
    next hprint => exact spells_self hprint hc.1 hc.2
    next hprint =>
      split
      next l b hfind =>
        have hb : b.toNat = c.toNat := by simpa using List.find?_some hfind
        have hfacts : ∀ p ∈ letters, p.2.toNat < 0x80 ∧ Text.byte p.1 ≠ Text.byte '"' := by decide
        have hmem := List.mem_of_find?_eq_some hfind
        obtain ⟨hsmall, hne⟩ : b.toNat < 0x80 ∧ Text.byte l ≠ Text.byte '"' := hfacts _ hmem
        rw [Utf8.encode_of_lt (by omega), ← hb, UInt8.ofNat_toNat]
        refine .escape (decodes_letters _ hmem) ?_
        rw [List.mem_singleton]
        exact Ne.symm hne
      next hfind =>
        split
        next hn =>
          rw [Utf8.encode_of_lt hn]
          exact spells_hexByte _
        next hn =>
          split
          next hn =>
            refine .escape (w := Text.byte 'u' :: Text.hexPadded 4 c.toNat) (decodes_four hn) ?_
            rw [List.mem_cons, not_or]
            exact ⟨by decide, not_mem_digits (w := 3) (by omega)⟩
          next hn =>
            refine .escape (w := Text.byte 'U' :: Text.hexPadded 8 c.toNat) (decodes_eight c) ?_
            have hc := Utf8.toNat_lt c
            rw [List.mem_cons, not_or]
            exact ⟨by decide, not_mem_digits (w := 7) (by omega)⟩

theorem spells_items {items : List Item} (h : .char '"' ∉ items) :
    Spells (items.flatMap encodeItem) (items.flatMap Item.bytes) := by
  induction items with
  | nil => exact .nil
  | cons x items ih =>
    rw [List.mem_cons, not_or] at h
    rw [List.flatMap_cons, List.flatMap_cons]
    refine .append ?_ (ih h.2)
    cases x with
    | char c => exact spells_encodeChar fun hc => h.1 (hc ▸ rfl)
    | stray b => exact spells_hexByte b

/-- **Reading undoes quoting.** -/
theorem decode?_encode (s : Text) : decode? (encode s) = some s := by
  have hitem (x : Item) : Decodes (encodeItem x) x.bytes := by
    cases x with
    | char c =>
      by_cases hc : c = '"'
      · rw [hc]
        exact decodes_mark (.inl rfl)
      · exact (spells_encodeChar hc).decodes
    | stray b => exact decodes_hexByte b
  have hitems (items : List Item) :
      Decodes (items.flatMap encodeItem) (items.flatMap Item.bytes) := by
    induction items with
    | nil => exact Spells.nil.decodes
    | cons x items ih => exact (hitem x).append ih
  rw [encode_eq_flatMap]
  exact (hitems (Utf8.items s)).decode?.trans (congrArg some (Utf8.bytes_items s))

/-- A text without double quotes is spelled. -/
theorem spells_encode {s : Text} (h : Text.byte '"' ∉ s) : Spells (encode s) s := by
  have hitems := spells_items fun hmem => h ((Utf8.char_mem_items (by decide)).1 hmem)
  rwa [← encode_eq_flatMap, Utf8.bytes_items] at hitems

/-- The first double quote of a text is written behind a text without any. -/
theorem exists_encode_of_mem {s : Text} (h : Text.byte '"' ∈ s) :
    ∃ w t r, Spells w t ∧ encode s = w ++ (Text.byte '\\' :: Text.byte '"' :: r) := by
  obtain ⟨front, back, hitems, hfirst⟩ :=
    List.eq_append_cons_of_mem ((Utf8.char_mem_items (c := '"') (by decide)).2 h)
  refine ⟨_, _, back.flatMap encodeItem, spells_items hfirst, ?_⟩
  rw [encode_eq_flatMap, hitems, List.flatMap_append, List.flatMap_cons]
  rfl

end Quoted

/-- **A quoted text is understood as a separator exactly if it has no double quote.**  Reading undoes
quoting for every string of bytes; the option for separators gives the text back, too, unless there
is a double quote in it, and then it refuses the value. -/
theorem separatorOf_quoted (s : Text) :
    Quoted.decode? (Quoted.encode s) = some s ∧
      separatorOf? (Quoted.encode s) = if Text.byte '"' ∈ s then none else some s := by
  refine ⟨Quoted.decode?_encode s, ?_⟩
  have hmark : Text.ofString "\"" = [Text.byte '"'] := by decide
  split
  next hquote =>
    obtain ⟨w, t, r, hspells, hencode⟩ := Quoted.exists_encode_of_mem hquote
    rw [separatorOf?, hencode, if_pos (by simp), hmark, Text.replace_append,
      Text.replace_of_not_mem hspells.bare, Text.replace_cons, if_neg (by decide), Text.replace_cons,
      if_pos rfl, Quoted.decode?, hspells.decodes]
    exact congrArg (Option.map _) (Quoted.decodeFrom_slash_quote _)
  next hquote =>
    have hspells := Quoted.spells_encode hquote
    rw [separatorOf?]
    split
    next hslash => rw [hmark, Text.replace_of_not_mem hspells.bare, hspells.decodes.decode?]
    next hslash => rw [hspells.plain (by simpa using hslash)]

/-- A double quote alone is quoted by a backslash, and that is no separator. -/
theorem separator_quote_refused :
    Quoted.encode "\"" = "\\\"" ∧ separatorOf? (Quoted.encode "\"") = none := by
  decide

end Tarjuman
