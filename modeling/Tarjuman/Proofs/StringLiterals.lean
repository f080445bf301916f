/-
# String literals of the script

A string of the script is a list of code units of 16 bits (`Script.units`), and no two texts have
the same (`Script.units_injective`).  A literal is read as the script reads it
(`StringLiteral.value?`): a backslash and one of six letters stand for a control character, `\x` and
two or `\u` and four hexadecimal digits for a code unit, and a backslash before any other character
for that character.  No line may end inside, and nothing may follow the closing quote.

A quoted text is written by slightly other rules, with `\a` for U+0007 and `\U` and eight digits for
what cannot be shown above U+FFFF.  As a literal these two are read as other characters
(`StringLiteral.readAs`), and all else as itself.  So a quoted text is always one literal
(`StringLiteral.value?_quoted`), and its value is the text exactly if no character of the text is of
these two sorts (`StringLiteral.flatMap_readAs_eq_iff`).
-/

import Mathlib.Algebra.Group.Nat.Defs
import Mathlib.Data.List.Basic
import Tarjuman.Proofs.CharacterBoundaries
import Tarjuman.Text.Quoted

namespace Tarjuman

/-! ## Hexadecimal numerals -/

namespace Text

/-- The number that digits denote, the highest place first. -/
def ofHex (ds : List Nat) : Nat := ds.foldl (16 * · + ·) 0

/-- A number is written with digits that denote it, and with no more than it needs. -/
theorem exists_digitsOnto (n : Nat) (acc : Text) :
    ∃ ds : List Nat, digitsOnto 16 digit n acc = ds.map digit ++ acc ∧ (∀ d ∈ ds, d < 16) ∧
      ofHex ds = n ∧ ∀ w, n < 16 ^ (w + 1) → ds.length ≤ w + 1 := by
  fun_induction digitsOnto 16 digit n acc with
  | case1 n acc hbase ih =>
    obtain ⟨ds, htext, hlt, hvalue, hlength⟩ := ih
    refine ⟨ds ++ [n % 16], ?_, ?_, ?_, fun w hw => ?_⟩
    · rw [htext, List.map_append, List.append_assoc]
      rfl
    · exact List.forall_mem_append.2 ⟨hlt, List.forall_mem_singleton.2 (Nat.mod_lt n (by decide))⟩
    · rw [ofHex, List.foldl_append, ← ofHex, hvalue]
      exact Nat.div_add_mod n 16
    · rw [List.length_append, List.length_singleton]
      cases w with
      | zero => omega
      | succ w =>
        have hdiv : n / 16 < 16 ^ (w + 1) :=
          Nat.div_lt_of_lt_mul (by rwa [Nat.pow_succ, Nat.mul_comm] at hw)
        have := hlength w hdiv
        omega
  | case2 n acc hbase =>
    have hn : n < 16 := by omega
    refine ⟨[n], rfl, List.forall_mem_singleton.2 hn, ?_, fun w _ => ?_⟩
    · rw [ofHex, List.foldl_cons, List.foldl_nil, Nat.mul_zero, Nat.zero_add]
    · rw [List.length_singleton]
      omega

theorem ofHex_replicate_append (k : Nat) (ds : List Nat) :
    ofHex (List.replicate k 0 ++ ds) = ofHex ds := by
  induction k with
  | zero => rfl
  | succ k ih => exact ih

/-- **A number that fits is written with as many digits as asked for.** -/
theorem exists_hexPadded {w n : Nat} (h : n < 16 ^ (w + 1)) :
    ∃ ds : List Nat, hexPadded (w + 1) n = ds.map digit ∧ ds.length = w + 1 ∧
      (∀ d ∈ ds, d < 16) ∧ ofHex ds = n := by
  obtain ⟨ds, htext, hlt, hvalue, hlength⟩ := exists_digitsOnto n []
  have hlength := hlength w h
  rw [List.append_nil] at htext
  refine ⟨List.replicate (w + 1 - ds.length) 0 ++ ds, ?_, ?_, ?_, ?_⟩
  · rw [hexPadded, htext, List.map_append, List.map_replicate, List.length_map]
    rfl
  · rw [List.length_append, List.length_replicate]
    omega
  · refine List.forall_mem_append.2 ⟨fun d hd => ?_, hlt⟩
    rw [List.eq_of_mem_replicate hd]
    decide
  · rw [ofHex_replicate_append, hvalue]

end Text

/-! ## Code units -/

namespace Script

/-- The code units of a character: its number, or two surrogates. -/
def unitsOf (c : Char) : List UInt16 :=
  let n := c.toNat
  if n < 0x10000 then [n.toUInt16]
  else [(0xD800 + (n - 0x10000) / 0x400).toUInt16, (0xDC00 + (n - 0x10000) % 0x400).toUInt16]

/-- The code units of characters. -/
def units (cs : List Char) : List UInt16 := cs.flatMap unitsOf

theorem units_singleton (c : Char) : units [c] = unitsOf c := List.append_nil _

theorem units_append (cs ds : List Char) : units (cs ++ ds) = units cs ++ units ds :=
  List.flatMap_append

/-- A character is one code unit that is no surrogate, or a high and a low surrogate. -/
theorem unitsOf_cases (c : Char) :
    (∃ u : UInt16, unitsOf c = [u] ∧ c.toNat = u.toNat ∧ (u.toNat < 0xD800 ∨ 0xE000 ≤ u.toNat)) ∨
    ∃ u v : UInt16, unitsOf c = [u, v] ∧ 0xD800 ≤ u.toNat ∧ u.toNat < 0xDC00 ∧
      0xDC00 ≤ v.toNat ∧
      c.toNat = 0x10000 + (u.toNat - 0xD800) * 0x400 + (v.toNat - 0xDC00) := by
  have hvalid : c.toNat.isValidChar := c.valid
  rw [Nat.isValidChar] at hvalid
  rw [unitsOf]
  split
  · have hunit : c.toNat.toUInt16.toNat = c.toNat := UInt16.toNat_ofNat_of_lt' (by assumption)
    exact .inl ⟨_, rfl, hunit.symm, by omega⟩
  · have hhigh : (0xD800 + (c.toNat - 0x10000) / 0x400).toUInt16.toNat =
        0xD800 + (c.toNat - 0x10000) / 0x400 :=
      UInt16.toNat_ofNat_of_lt' (by rw [UInt16.size]; omega)
    have hlow : (0xDC00 + (c.toNat - 0x10000) % 0x400).toUInt16.toNat =
        0xDC00 + (c.toNat - 0x10000) % 0x400 :=
      UInt16.toNat_ofNat_of_lt' (by rw [UInt16.size]; omega)
    exact .inr ⟨_, _, rfl, by omega, by omega, by omega, by omega⟩

theorem unitsOf_ne_nil (c : Char) : unitsOf c ≠ [] := by
  rcases unitsOf_cases c with ⟨u, hu, -⟩ | ⟨u, v, hu, -⟩ <;> rw [hu] <;> exact List.cons_ne_nil _ _

/-- The first character is read off the code units, whatever follows. -/
theorem unitsOf_append_inj {c d : Char} {r s : List UInt16}
    (h : unitsOf c ++ r = unitsOf d ++ s) : c = d ∧ r = s := by
  rcases unitsOf_cases c with ⟨u, hu, hc, _⟩ | ⟨u, u', hu, _, _, _, hc⟩ <;>
    rcases unitsOf_cases d with ⟨v, hv, hd, _⟩ | ⟨v, v', hv, _, _, _, hd⟩ <;>
    rw [hu, hv] at h <;>
    simp only [List.cons_append, List.nil_append, List.cons.injEq] at h
  · obtain ⟨rfl, rfl⟩ := h
    exact ⟨Char.toNat_inj.1 (hc.trans hd.symm), rfl⟩
  · obtain ⟨rfl, -⟩ := h
    omega
  · obtain ⟨rfl, -⟩ := h
    omega
  · obtain ⟨rfl, rfl, rfl⟩ := h
    exact ⟨Char.toNat_inj.1 (hc.trans hd.symm), rfl⟩

/-- **No two texts have the same code units.** -/
theorem units_injective : Function.Injective units := by
  intro cs
  induction cs with
  | nil =>
    intro ds h
    cases ds with
    | nil => rfl
    | cons d ds => exact absurd (List.append_eq_nil_iff.1 h.symm).1 (unitsOf_ne_nil d)
  | cons c cs ih =>
    intro ds h
    cases ds with
    | nil => exact absurd (List.append_eq_nil_iff.1 h).1 (unitsOf_ne_nil c)
    | cons d ds =>
      obtain ⟨rfl, htail⟩ := unitsOf_append_inj h
      rw [ih htail]

end Script

/-! ## Reading a literal -/

namespace StringLiteral

open Script

/-- The control characters that a backslash and a letter stand for. -/
def controls : List (Char × Char) :=
  [('b', '\x08'), ('t', '\t'), ('n', '\n'), ('v', '\x0b'), ('f', '\x0c'), ('r', '\r')]

/-- The characters that end a line of the script. -/
def isLineBreak (c : Char) : Bool :=
  c == '\n' || c == '\r' || c == '\u2028' || c == '\u2029'

/-- The value of a hexadecimal digit in either case. -/
def hexDigit? (c : Char) : Option Nat :=
  if '0' ≤ c ∧ c ≤ '9' then some (c.toNat - 0x30)
  else if 'a' ≤ c ∧ c ≤ 'f' then some (c.toNat - 0x57)
  else if 'A' ≤ c ∧ c ≤ 'F' then some (c.toNat - 0x37)
  else none

/-- The code unit that hexadecimal digits denote. -/
def unit? (ds : List Char) : Option UInt16 :=
  (ds.mapM hexDigit?).map fun ds => (Text.ofHex ds).toUInt16

/-- The code units from the opening quote on; the closing quote is the last character. -/
def read? : List Char → Option (List UInt16)
  | [] => none
  | c :: r =>
    if c = '"' then if r.isEmpty then some [] else none
    else if isLineBreak c then none
    else if c = '\\' then
      match r with
      | [] => none
      | e :: r =>
        if isLineBreak e then none
        else if e = 'x' then
          match r with
          | a :: b :: r => (unit? [a, b]).bind fun u => (read? r).map (u :: ·)
          | _ => none
        else if e = 'u' then
          match r with
          | a :: b :: c :: d :: r => (unit? [a, b, c, d]).bind fun u => (read? r).map (u :: ·)
          | _ => none
        else (read? r).map (unitsOf ((controls.lookup e).getD e) ++ ·)
    else (read? r).map (unitsOf c ++ ·)

/-- The value of a text that is one literal and nothing else. -/
def value? : List Char → Option (List UInt16)
  | [] => none
  | c :: r => if c = '"' then read? r else none

/-- Inside a literal the character stands for itself. -/
def isPlain (c : Char) : Bool := c != '"' && !isLineBreak c && c != '\\'

/-- What is written `ws` is read as `cs`, whatever follows. -/
def Reads (ws cs : List Char) : Prop :=
  ∀ r, read? (ws ++ r) = (read? r).map (units cs ++ ·)

theorem Reads.nil : Reads [] [] := fun r => (Option.map_id' (x := read? r)).symm

theorem Reads.append {ws ws' cs cs' : List Char} (h : Reads ws cs) (h' : Reads ws' cs') :
    Reads (ws ++ ws') (cs ++ cs') := by
  intro r
  rw [List.append_assoc, h, h', Option.map_map, units_append]
  congr 1
  funext us
  exact (List.append_assoc _ _ _).symm

theorem Reads.plain {c : Char} (h : isPlain c = true) : Reads [c] [c] := by
  intro r
  simp only [isPlain, Bool.and_eq_true, bne_iff_ne, Bool.not_eq_true'] at h
  obtain ⟨⟨hquote, hbreak⟩, hslash⟩ := h
  rw [List.singleton_append, read?.eq_def]
  dsimp only
  rw [if_neg hquote, hbreak, if_neg Bool.false_ne_true, if_neg hslash, units_singleton]

theorem Reads.plains {cs : List Char} (h : ∀ c ∈ cs, isPlain c = true) : Reads cs cs := by
  induction cs with
  | nil => exact .nil
  | cons c cs ih =>
    obtain ⟨hc, hcs⟩ := List.forall_mem_cons.1 h
    exact (Reads.plain hc).append (ih hcs)

/-- A backslash before a character that starts no code. -/
theorem Reads.escape {e : Char} (hbreak : isLineBreak e = false) (hx : e ≠ 'x') (hu : e ≠ 'u') :
    Reads ['\\', e] [(controls.lookup e).getD e] := by
  intro r
  rw [List.cons_append, List.singleton_append, read?.eq_def]
  dsimp only
  rw [if_neg (by decide), if_neg (by decide), if_pos rfl, hbreak, if_neg Bool.false_ne_true,
    if_neg hx, if_neg hu, units_singleton]

/-! ## Codes -/

/-- The sixteen digits as characters. -/
theorem digitChar_facts : ∀ d < 16, Utf8.encode (Nat.digitChar d) = [Text.digit d] ∧
    hexDigit? (Nat.digitChar d) = some d ∧ isPlain (Nat.digitChar d) = true := by
  decide

theorem ofChars_digits {ds : List Nat} (h : ∀ d ∈ ds, d < 16) :
    Utf8.ofChars (ds.map Nat.digitChar) = ds.map Text.digit := by
  induction ds with
  | nil => rfl
  | cons d ds ih =>
    obtain ⟨hd, hds⟩ := List.forall_mem_cons.1 h
    rw [List.map_cons, Utf8.ofChars, List.flatMap_cons, (digitChar_facts d hd).1, ← Utf8.ofChars,
      ih hds]
    rfl

/-- A code: a backslash, a letter and digits. -/
theorem ofChars_code {e : Char} {ds : List Nat} (h : ∀ d ∈ ds, d < 16) :
    Utf8.ofChars (['\\', e] ++ ds.map Nat.digitChar) =
      Utf8.ofChars ['\\', e] ++ ds.map Text.digit := by
  rw [← ofChars_digits h, Utf8.ofChars, Utf8.ofChars, Utf8.ofChars, List.flatMap_append]

theorem unit?_digits {ds : List Nat} (h : ∀ d ∈ ds, d < 16) :
    unit? (ds.map Nat.digitChar) = some (Text.ofHex ds).toUInt16 := by
  have hdigits : (ds.map Nat.digitChar).mapM hexDigit? = some ds := by
    induction ds with
    | nil => rfl
    | cons d ds ih =>
      obtain ⟨hd, hds⟩ := List.forall_mem_cons.1 h
      rw [List.map_cons, List.mapM_cons, (digitChar_facts d hd).2.1, ih hds]
      rfl
  rw [unit?, hdigits, Option.map_some]

theorem units_of_lt {c : Char} (h : c.toNat < 0x10000) : units [c] = [c.toNat.toUInt16] := by
  rw [units_singleton, unitsOf, if_pos h]

/-- A code of two digits. -/
theorem exists_reads_two {c : Char} (h : c.toNat < 0x80) :
    ∃ ws, "\\x" ++ Text.hexPadded 2 c.toNat = Utf8.ofChars ws ∧ Reads ws [c] := by
  obtain ⟨ds, htext, hlength, hlt, hvalue⟩ :=
    Text.exists_hexPadded (w := 1) (n := c.toNat) (by omega)
  refine ⟨['\\', 'x'] ++ ds.map Nat.digitChar, ?_, fun r => ?_⟩
  · rw [ofChars_code hlt, htext]
    rfl
  · have hunit := unit?_digits hlt
    obtain ⟨a, b, rfl⟩ := List.length_eq_two.1 hlength
    rw [hvalue] at hunit
    rw [units_of_lt (by omega)]
    simp only [List.map_cons, List.map_nil, List.cons_append, List.nil_append] at hunit ⊢
    rw [read?.eq_def]
    dsimp only
    rw [if_neg (by decide), if_neg (by decide), if_pos rfl, if_neg (by decide), if_pos rfl, hunit]
    rfl

/-- A code of four digits. -/
theorem exists_reads_four {c : Char} (h : c.toNat < 0x10000) :
    ∃ ws, "\\u" ++ Text.hexPadded 4 c.toNat = Utf8.ofChars ws ∧ Reads ws [c] := by
  obtain ⟨ds, htext, hlength, hlt, hvalue⟩ :=
    Text.exists_hexPadded (w := 3) (n := c.toNat) (by omega)
  refine ⟨['\\', 'u'] ++ ds.map Nat.digitChar, ?_, fun r => ?_⟩
  · rw [ofChars_code hlt, htext]
    rfl
  · have hunit := unit?_digits hlt
    obtain ⟨a, ds, rfl⟩ := List.exists_of_length_succ ds hlength
    obtain ⟨b, d, e, rfl⟩ := List.length_eq_three.1 (Nat.succ.inj hlength)
    rw [hvalue] at hunit
    rw [units_of_lt h]
    simp only [List.map_cons, List.map_nil, List.cons_append, List.nil_append] at hunit ⊢
    rw [read?.eq_def]
    dsimp only
    rw [if_neg (by decide), if_neg (by decide), if_pos rfl, if_neg (by decide), if_neg (by decide),
      if_pos rfl, hunit]
    rfl

/-! ## Quoted texts as literals -/

/-- What a literal makes of the way a character is quoted. -/
def readAs (c : Char) : List Char :=
  if c = '\x07' then ['a']
  else if c.toNat < 0x10000 ∨ Unicode.isPrintable c then [c]
  else 'U' :: Utf8.chars (Text.hexPadded 8 c.toNat)

/-- The code of eight digits is none in a literal: its letter and its digits stand for themselves. -/
theorem exists_reads_eight (c : Char) :
    ∃ ws, "\\U" ++ Text.hexPadded 8 c.toNat = Utf8.ofChars ws ∧
      Reads ws ('U' :: Utf8.chars (Text.hexPadded 8 c.toNat)) := by
  have hvalid : c.toNat.isValidChar := c.valid
  rw [Nat.isValidChar] at hvalid
  obtain ⟨ds, htext, -, hlt, -⟩ := Text.exists_hexPadded (w := 7) (n := c.toNat) (by omega)
  have hchars : Utf8.chars (Text.hexPadded 8 c.toNat) = ds.map Nat.digitChar := by
    rw [htext, ← ofChars_digits hlt, Utf8.chars_ofChars]
  refine ⟨['\\', 'U'] ++ ds.map Nat.digitChar, ?_, ?_⟩
  · rw [ofChars_code hlt, htext]
    rfl
  · rw [hchars]
    refine (Reads.escape (e := 'U') (by decide) (by decide) (by decide)).append (.plains ?_)
    exact List.forall_mem_map.2 fun d hd => (digitChar_facts d (hlt d hd)).2.2

/-- The escapes of one letter, read as a literal. -/
theorem letters_facts : ∀ p ∈ Quoted.letters,
    [Text.byte '\\', Text.byte p.1] = Utf8.ofChars ['\\', p.1] ∧
      isLineBreak p.1 = false ∧ p.1 ≠ 'x' ∧ p.1 ≠ 'u' ∧
      [(controls.lookup p.1).getD p.1] = readAs (Char.ofNat p.2.toNat) := by
  decide

set_option maxRecDepth 4096 in
/-- The ends of lines cannot be shown. -/
theorem isPrintable_of_isLineBreak {c : Char} (h : isLineBreak c = true) :
    Unicode.isPrintable c = false := by
  simp only [isLineBreak, Bool.or_eq_true, beq_iff_eq] at h
  rcases h with ((rfl | rfl) | rfl) | rfl <;> decide

theorem isPlain_of_isPrintable {c : Char} (h : Unicode.isPrintable c = true) (hquote : c ≠ '"')
    (hslash : c ≠ '\\') : isPlain c = true := by
  have hbreak : isLineBreak c = false := by
    by_contra hc
    rw [Bool.not_eq_false] at hc
    exact Bool.false_ne_true ((isPrintable_of_isLineBreak hc).symm.trans h)
  rw [isPlain, hbreak, bne_iff_ne.2 hquote, bne_iff_ne.2 hslash]
  rfl

/-- **A quoted character is read as `readAs` says**, one case for each way to write it. -/
theorem exists_reads_encodeChar (c : Char) :
    ∃ ws, Quoted.encodeChar c = Utf8.ofChars ws ∧ Reads ws (readAs c) := by
  rw [Quoted.encodeChar]
  split
  next hc =>
    refine ⟨['\\', c], ?_, ?_⟩
    · rcases hc with rfl | rfl <;> rfl
    · rcases hc with rfl | rfl <;> exact .escape (by decide) (by decide) (by decide)
  next hc =>
    rw [not_or] at hc
    split
    next hprint =>
      have hbell : c ≠ '\x07' := by
        rintro rfl
        exact absurd hprint (by decide)
      rw [readAs, if_neg hbell, if_pos (.inr hprint)]
      exact ⟨[c], (List.append_nil _).symm, .plain (isPlain_of_isPrintable hprint hc.1 hc.2)⟩
    next hprint =>
      split
      next l b hfind =>
        have hb : b.toNat = c.toNat := by simpa using List.find?_some hfind
        obtain ⟨htext, hbreak, hx, hu, hread⟩ := letters_facts _ (List.mem_of_find?_eq_some hfind)
        refine ⟨_, htext, ?_⟩
        rw [show c = Char.ofNat b.toNat by rw [hb, Char.ofNat_toNat], ← hread]
        exact .escape hbreak hx hu
      next hfind =>
        have hbell : c ≠ '\x07' := by
          rintro rfl
          exact absurd hfind (by decide)
        rw [readAs, if_neg hbell]
        split
        next hn =>
          have hbyte : c.toNat.toUInt8.toNat = c.toNat :=
            UInt8.toNat_ofNat_of_lt' (by rw [UInt8.size]; omega)
          rw [Quoted.hexByte, hbyte, if_pos (.inl (by omega))]
          exact exists_reads_two hn
        next =>
          split
          next hn =>
            rw [if_pos (.inl hn)]
            exact exists_reads_four hn
          next hn =>
            rw [if_neg (not_or.2 ⟨hn, hprint⟩)]
            exact exists_reads_eight c

theorem exists_reads_flatMap (cs : List Char) :
    ∃ ws, cs.flatMap Quoted.encodeChar = Utf8.ofChars ws ∧ Reads ws (cs.flatMap readAs) := by
  induction cs with
  | nil => exact ⟨[], rfl, .nil⟩
  | cons c cs ih =>
    obtain ⟨ws, hws, hreads⟩ := exists_reads_encodeChar c
    obtain ⟨ws', hws', hreads'⟩ := ih
    refine ⟨ws ++ ws', ?_, hreads.append hreads'⟩
    rw [List.flatMap_cons, hws, hws', Utf8.ofChars, Utf8.ofChars, Utf8.ofChars, List.flatMap_append]

theorem encode_ofChars (cs : List Char) :
    Quoted.encode (Utf8.ofChars cs) = cs.flatMap Quoted.encodeChar := by
  induction cs with
  | nil => rfl
  | cons c cs ih =>
    rw [Utf8.ofChars, List.flatMap_cons, Quoted.encode, Utf8.items_encode_append, List.flatMap_cons,
      List.flatMap_cons, ← ih]
    rfl

/-- **A quoted text is one literal**, with the value that `readAs` gives its characters. -/
theorem value?_quoted {v : Text} (h : Utf8.isValid v = true) :
    ∃ l, v.quoted = Utf8.ofChars l ∧
      value? l = some (units ((Utf8.chars v).flatMap readAs)) := by
  obtain ⟨cs, rfl⟩ := Utf8.isValid_iff.1 h
  obtain ⟨ws, hws, hreads⟩ := exists_reads_flatMap cs
  refine ⟨'"' :: (ws ++ ['"']), ?_, ?_⟩
  · rw [Text.quoted, encode_ofChars, hws, Utf8.ofChars, Utf8.ofChars, List.flatMap_cons,
      List.flatMap_append]
    rfl
  · have hend : read? ['"'] = some [] := rfl
    rw [value?, if_pos rfl, hreads, hend, Option.map_some, List.append_nil, Utf8.chars_ofChars]

/-- The way the character is quoted is read as the character. -/
def IsKept (c : Char) : Prop :=
  c ≠ '\x07' ∧ (c.toNat < 0x10000 ∨ Unicode.isPrintable c = true)

theorem readAs_eq_iff {c : Char} : readAs c = [c] ↔ IsKept c := by
  rw [readAs, IsKept]
  split
  next hc =>
    subst hc
    decide
  next hc =>
    split
    next hkept => exact iff_of_true rfl ⟨hc, hkept⟩
    next hkept =>
      refine iff_of_false (fun h => hkept (.inl ?_)) fun h => hkept h.2
      rw [← (List.cons.inj h).1]
      decide

theorem readAs_ne_nil (c : Char) : readAs c ≠ [] := by
  rw [readAs]
  split
  · exact List.cons_ne_nil _ _
  · split <;> exact List.cons_ne_nil _ _

theorem length_le_flatMap_readAs (cs : List Char) : cs.length ≤ (cs.flatMap readAs).length := by
  induction cs with
  | nil => exact Nat.le_refl 0
  | cons c cs ih =>
    have := List.length_pos_iff.2 (readAs_ne_nil c)
    rw [List.flatMap_cons, List.length_append, List.length_cons]
    omega

/-- **The value is the text exactly if every character is kept.**  No other characters can make
up for one that is not, as each is read as one character at least. -/
theorem flatMap_readAs_eq_iff {cs : List Char} :
    cs.flatMap readAs = cs ↔ ∀ c ∈ cs, IsKept c := by
  induction cs with
  | nil => exact iff_of_true rfl (List.forall_mem_nil _)
  | cons c cs ih =>
    rw [List.forall_mem_cons, ← ih, ← readAs_eq_iff, List.flatMap_cons]
    constructor
    · intro h
      have hlength := congrArg List.length h
      have hrest := length_le_flatMap_readAs cs
      rw [List.length_append, List.length_cons] at hlength
      obtain ⟨d, ds, hd⟩ := List.exists_cons_of_ne_nil (readAs_ne_nil c)
      have hds : ds = [] := by
        rw [hd, List.length_cons] at hlength
        exact List.length_eq_zero_iff.1 (by omega)
      rw [hd, hds, List.singleton_append] at h
      obtain ⟨rfl, htail⟩ := List.cons.inj h
      exact ⟨by rw [hd, hds], htail⟩
    · rintro ⟨hc, hcs⟩
      rw [hc, hcs, List.singleton_append]

end StringLiteral
end Tarjuman
