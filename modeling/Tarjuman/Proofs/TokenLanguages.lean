/-
# What the text of a token looks like

Every kind of token has its language, and a token takes all that belongs to it.  The
languages are said here on the text of the token and on the text behind it
(`Lexeme.Spelled`), without counting bytes:

| kind | text | behind it |
|------|------|-----------|
| number | digits, or digits, a comma and digits | no digit, nor the first comma with a digit |
| string | quotes around bytes, a backslash hiding the next one | anything |
| identifier | starts like no number and no operator, holds no separator | a separator or the end |
| raw literal | braces that match, no blank at the ends | anything |
| operator | its spelling | nothing that makes a longer one |
| keyword | its spelling, with the space behind it | another delimiter, if there was no space |

`Lexeme.spelled_of_read` says this of the lexeme at the head of a text and
`tokenize_spelled` of every token of a content.
-/

import Mathlib.Algebra.Group.Nat.Defs
import Mathlib.Data.List.TakeWhile
import Mathlib.Tactic.Tauto
import Tarjuman.Proofs.Characters
import Tarjuman.Proofs.LexemeText
import Tarjuman.Proofs.TokenStream

namespace Tarjuman

/-! ## Characters at the head of a text -/

namespace Utf8

/-- A character below U+0800 is encoded in one byte or in two. -/
theorem bytes_of_decode? {s : Text} {c : Char} (h : decode? s = some c) (hc : c.toNat < 0x800) :
    (∃ b r, s = b :: r ∧ b.toNat = c.toNat ∧ c.toNat < 0x80) ∨
      ∃ a b r, s = a :: b :: r ∧ 0xC2 ≤ a.toNat ∧ a.toNat < 0xE0 ∧ isTail b = true ∧
        a.toNat % 32 * 64 + low6 b = c.toNat := by
  obtain ⟨p, r, rfl, hp⟩ := exists_layout_of_decode? h
  cases hp with
  | @one a short first => exact .inl ⟨a, r, rfl, first, short⟩
  | @two a b long short first last =>
    have htail : isTail b = true := by
      simp only [isTail, Bool.and_eq_true, decide_eq_true_eq, UInt8.le_iff_toNat_le, last]
      exact ⟨Nat.le_add_left _ _, by show _ ≤ 191; omega⟩
    refine .inr ⟨a, b, r, rfl, by omega, by omega, htail, ?_⟩
    rw [low6]
    omega
  | three long | four long => omega

theorem decode?_of_head? {s : Text} {c : Char} (h : head? s = some (.char c)) :
    decode? s = some c := by
  cases s with
  | nil => cases h
  | cons b s =>
    rw [head?] at h
    split at h
    · rename_i hc
      cases h
      exact hc
    · cases h

/-- A character of one byte is read off that byte. -/
theorem byte_of_head? {s : Text} {c : Char} (h : head? s = some (.char c)) (hc : c.toNat < 0x80) :
    s.head? = some (Text.byte c) := by
  rcases bytes_of_decode? (decode?_of_head? h) (by omega) with
    ⟨b, r, rfl, hb, -⟩ | ⟨a, b, r, rfl, hlow, hhigh, -, hn⟩
  · rw [Text.byte, ← hb]
    exact congrArg some UInt8.ofNat_toNat.symm
  · omega

end Utf8

namespace Lexeme

/-! ## Numbers -/

/-- A digit: Western, Arabic-Indic or extended Arabic-Indic. -/
def isDigit (c : Char) : Bool :=
  ('0' ≤ c && c ≤ '9') || ('٠' ≤ c && c ≤ '٩') || ('۰' ≤ c && c ≤ '۹')

/-- The next character of the text is a digit. -/
def StartsWithDigit (s : Text) : Prop := ∃ c, Utf8.head? s = some (.char c) ∧ isDigit c = true

/-- One or more digits. -/
def Digits (s : Text) : Prop :=
  ∃ cs : List Char, cs ≠ [] ∧ (∀ c ∈ cs, isDigit c = true) ∧ s = Utf8.ofChars cs

/-- A number in front of `rest`, which does not go on with it. -/
inductive Number (rest : Text) : Text → Prop where
  | whole {s : Text} (digits : Digits s) (stop : ¬ StartsWithDigit rest)
      (comma : ∀ r, rest = Text.byte ',' :: r → ¬ StartsWithDigit r) : Number rest s
  | fraction {s t : Text} (digits : Digits s) (more : Digits t) (stop : ¬ StartsWithDigit rest) :
      Number rest (s ++ Text.byte ',' :: t)

theorem isDigit_iff {c : Char} : isDigit c = true ↔
    (0x30 ≤ c.toNat ∧ c.toNat ≤ 0x39) ∨ (0x660 ≤ c.toNat ∧ c.toNat ≤ 0x669) ∨
      (0x6F0 ≤ c.toNat ∧ c.toNat ≤ 0x6F9) := by
  simp only [isDigit, Bool.or_eq_true, Bool.and_eq_true, decide_eq_true_eq, Char.le_def,
    UInt32.le_iff_toNat_le, or_assoc]
  exact Iff.rfl

theorem isWesternDigit_iff {b : UInt8} :
    isWesternDigit b = true ↔ 0x30 ≤ b.toNat ∧ b.toNat ≤ 0x39 := by
  simp only [isWesternDigit, Bool.and_eq_true, decide_eq_true_eq, UInt8.le_iff_toNat_le]
  exact Iff.rfl

theorem isArabicDigit_iff {a b : UInt8} : isArabicDigit a b = true ↔
    (a.toNat = 0xD9 ∧ 0xA0 ≤ b.toNat ∧ b.toNat ≤ 0xA9) ∨
      (a.toNat = 0xDB ∧ 0xB0 ≤ b.toNat ∧ b.toNat ≤ 0xB9) := by
  simp only [isArabicDigit, Bool.or_eq_true, Bool.and_eq_true, decide_eq_true_eq, beq_iff_eq,
    UInt8.le_iff_toNat_le, ← UInt8.toNat_inj, and_assoc]
  exact Iff.rfl

/-- Where the next character is a digit there are bytes of digits, whatever follows. -/
theorem digitsSize_append_ne_zero {s : Text} (h : StartsWithDigit s) (r : Text) :
    digitsSize (s ++ r) ≠ 0 := by
  obtain ⟨c, hhead, hdigit⟩ := h
  rw [isDigit_iff] at hdigit
  rcases Utf8.bytes_of_decode? (Utf8.decode?_of_head? hhead) (by omega) with
    ⟨b, t, rfl, hb, hlt⟩ | ⟨a, b, t, rfl, hlow, hhigh, htail, hn⟩
  · have hwestern : isWesternDigit b = true := isWesternDigit_iff.2 (by omega)
    rw [List.cons_append, digitsSize.eq_def]
    dsimp only
    rw [if_pos hwestern]
    omega
  · have hb := Utf8.toNat_isTail htail
    have hwestern : ¬ isWesternDigit a = true := fun h => by
      have := isWesternDigit_iff.1 h
      omega
    have harabic : isArabicDigit a b = true := by
      rw [Utf8.low6] at hn
      rw [isArabicDigit_iff]
      omega
    rw [List.cons_append, List.cons_append, digitsSize.eq_def]
    dsimp only
    rw [if_neg hwestern, if_pos harabic]
    omega

theorem not_startsWithDigit {s : Text} (h : digitsSize s = 0) : ¬ StartsWithDigit s := by
  intro hstart
  have hne := digitsSize_append_ne_zero hstart []
  rw [List.append_nil] at hne
  exact hne h

theorem exists_digit_of_western {b : UInt8} (h : isWesternDigit b = true) :
    ∃ c, isDigit c = true ∧ Utf8.encode c = [b] := by
  have hall : ∀ n < 10, isDigit (Char.ofNat (0x30 + n)) = true ∧
      Utf8.encode (Char.ofNat (0x30 + n)) = [UInt8.ofNat (0x30 + n)] := by decide
  rw [isWesternDigit_iff] at h
  obtain ⟨hdigit, hencode⟩ := hall (b.toNat - 0x30) (by omega)
  rw [Nat.add_sub_cancel' h.1, UInt8.ofNat_toNat] at hencode
  exact ⟨_, hdigit, by rw [Nat.add_sub_cancel' h.1, hencode]⟩

theorem exists_digit_of_arabic {a b : UInt8} (h : isArabicDigit a b = true) :
    ∃ c, isDigit c = true ∧ Utf8.encode c = [a, b] := by
  have hall : ∀ n < 10,
      (isDigit (Char.ofNat (0x660 + n)) = true ∧
        Utf8.encode (Char.ofNat (0x660 + n)) = [0xD9, UInt8.ofNat (0xA0 + n)]) ∧
      isDigit (Char.ofNat (0x6F0 + n)) = true ∧
        Utf8.encode (Char.ofNat (0x6F0 + n)) = [0xDB, UInt8.ofNat (0xB0 + n)] := by decide
  rcases isArabicDigit_iff.1 h with ⟨ha, hlow, hhigh⟩ | ⟨ha, hlow, hhigh⟩
  · obtain ⟨hdigit, hencode⟩ := (hall (b.toNat - 0xA0) (by omega)).1
    rw [Nat.add_sub_cancel' hlow, UInt8.ofNat_toNat] at hencode
    obtain rfl : a = 0xD9 := UInt8.toNat_inj.1 ha
    exact ⟨_, hdigit, hencode⟩
  · obtain ⟨hdigit, hencode⟩ := (hall (b.toNat - 0xB0) (by omega)).2
    rw [Nat.add_sub_cancel' hlow, UInt8.ofNat_toNat] at hencode
    obtain rfl : a = 0xDB := UInt8.toNat_inj.1 ha
    exact ⟨_, hdigit, hencode⟩

theorem exists_take_digitsSize (s : Text) :
    ∃ cs : List Char, (∀ c ∈ cs, isDigit c = true) ∧ s.take (digitsSize s) = Utf8.ofChars cs := by
  fun_induction digitsSize s with
  | case1 => exact ⟨[], List.forall_mem_nil _, rfl⟩
  | case2 a r hwestern ih =>
    obtain ⟨cs, hcs, htake⟩ := ih
    obtain ⟨c, hc, hencode⟩ := exists_digit_of_western hwestern
    refine ⟨c :: cs, List.forall_mem_cons.2 ⟨hc, hcs⟩, ?_⟩
    rw [Nat.add_comm, List.take_succ_cons, htake]
    exact congrArg (· ++ Utf8.ofChars cs) hencode.symm
  | case3 a _ => exact ⟨[], List.forall_mem_nil _, rfl⟩
  | case4 a _ b r harabic ih =>
    obtain ⟨cs, hcs, htake⟩ := ih
    obtain ⟨c, hc, hencode⟩ := exists_digit_of_arabic harabic
    refine ⟨c :: cs, List.forall_mem_cons.2 ⟨hc, hcs⟩, ?_⟩
    rw [Nat.add_comm, List.take_succ_cons, List.take_succ_cons, htake]
    exact congrArg (· ++ Utf8.ofChars cs) hencode.symm
  | case5 a _ b r _ => exact ⟨[], List.forall_mem_nil _, rfl⟩

theorem digits_take {s : Text} (h : digitsSize s ≠ 0) : Digits (s.take (digitsSize s)) := by
  obtain ⟨cs, hcs, htake⟩ := exists_take_digitsSize s
  refine ⟨cs, ?_, hcs, htake⟩
  rintro rfl
  have hlen : (s.take (digitsSize s)).length = digitsSize s :=
    List.length_take_of_le (digitsSize_le s)
  rw [htake] at hlen
  exact h hlen.symm

/-- Behind the digits there are none. -/
theorem digitsSize_drop (s : Text) : digitsSize (s.drop (digitsSize s)) = 0 := by
  fun_induction digitsSize s with
  | case1 => rfl
  | case2 a r _ ih => rwa [Nat.add_comm, List.drop_succ_cons]
  | case3 a hwestern =>
    rw [List.drop_zero, digitsSize.eq_def]
    simp [hwestern]
  | case4 a _ b r _ ih => rwa [Nat.add_comm, List.drop_succ_cons, List.drop_succ_cons]
  | case5 a hwestern b r harabic =>
    rw [List.drop_zero, digitsSize.eq_def]
    simp [hwestern, harabic]

/-- **What is counted as a number is one**, and it does not go on. -/
theorem number_take {s : Text} (h : digitsSize s ≠ 0) :
    Number (s.drop (numberSize s)) (s.take (numberSize s)) := by
  have hwhole := digits_take h
  have hstop := not_startsWithDigit (digitsSize_drop s)
  have hle := digitsSize_le s
  rw [numberSize]
  split
  · rename_i b r hrest
    split
    · rename_i hcomma
      simp only [Bool.and_eq_true, beq_iff_eq, bne_iff_ne] at hcomma
      obtain ⟨rfl, hmore⟩ := hcomma
      rw [Nat.add_assoc, List.take_add, ← List.drop_drop, hrest, Nat.add_comm 1,
        List.take_succ_cons, List.drop_succ_cons]
      exact .fraction hwhole (digits_take hmore) (not_startsWithDigit (digitsSize_drop r))
    · rename_i hcomma
      refine .whole hwhole hstop fun r' hr' => ?_
      obtain ⟨rfl, rfl⟩ := List.cons_eq_cons.1 (hrest.symm.trans hr')
      refine not_startsWithDigit ?_
      simpa using hcomma
  · rename_i hrest
    refine .whole hwhole hstop fun r hr => ?_
    rw [hrest] at hr
    cases hr

/-! ## Strings -/

/-- The byte around strings. -/
def quote : UInt8 := Text.byte '"'

/-- The byte that hides the one behind it. -/
def backslash : UInt8 := Text.byte '\\'

/-- Bytes without a quote that no backslash hides. -/
inductive StringBody : Text → Prop where
  | nil : StringBody []
  | plain {b : UInt8} {r : Text} (quote : b ≠ quote) (backslash : b ≠ backslash)
      (more : StringBody r) : StringBody (b :: r)
  | hidden (b : UInt8) {r : Text} (more : StringBody r) : StringBody (backslash :: b :: r)

theorem stringBody_of_stringSize? {r : Text} {n : Nat} (h : stringSize? r = some n) :
    ∃ body rest, r = body ++ quote :: rest ∧ StringBody body ∧ n = body.length + 1 := by
  fun_induction stringSize? r generalizing n with
  | case1 => cases h
  | case2 b r hb =>
    cases h
    obtain rfl : b = quote := beq_iff_eq.1 hb
    exact ⟨[], r, rfl, .nil, rfl⟩
  | case3 => cases h
  | case4 b _ hb b' r ih =>
    obtain ⟨m, hm, rfl⟩ := Option.map_eq_some_iff.1 h
    obtain ⟨body, rest, rfl, hbody, rfl⟩ := ih hm
    obtain rfl : b = backslash := beq_iff_eq.1 hb
    refine ⟨backslash :: b' :: body, rest, rfl, .hidden b' hbody, ?_⟩
    simp only [List.length_cons]
    omega
  | case5 b r hquote hback ih =>
    obtain ⟨m, hm, rfl⟩ := Option.map_eq_some_iff.1 h
    obtain ⟨body, rest, rfl, hbody, rfl⟩ := ih hm
    refine ⟨b :: body, rest, rfl, .plain ?_ ?_ hbody, ?_⟩
    · exact fun heq => hquote (beq_iff_eq.2 heq)
    · exact fun heq => hback (beq_iff_eq.2 heq)
    · rw [List.length_cons]
      omega

/-- A string with its quotes. -/
inductive StringText : Text → Prop where
  | intro {body : Text} (inner : StringBody body) : StringText (quote :: (body ++ [quote]))

theorem stringText_take {r : Text} {n : Nat} (h : stringSize? r = some n) :
    StringText ((quote :: r).take (1 + n)) := by
  obtain ⟨body, rest, rfl, hbody, rfl⟩ := stringBody_of_stringSize? h
  have htake : (body ++ quote :: rest).take (body.length + 1) = body ++ [quote] := by
    rw [List.take_length_add_append]
    rfl
  rw [Nat.add_comm, List.take_succ_cons, htake]
  exact .intro hbody

/-! ## Identifiers -/

/-- The characters that operators, strings and raw literals start with. -/
def openers : List Char :=
  ['=', '!', '<', '>', '(', ')', '+', '-', '*', '\\', '/', ',', '"']

/-- The bytes that end an identifier. -/
def separators : Text := "(),+- \t\n\r"

/-- An identifier in front of `rest`, which does not go on with it. -/
structure Identifier (s rest : Text) : Prop where
  solid : s ≠ []
  /-- It starts like nothing else. -/
  starts : ∀ c, Utf8.head? s = some (.char c) → isDigit c = false ∧ c ∉ openers
  inside : ∀ b ∈ s, b ∉ separators
  stops : ∀ b ∈ rest.head?, b ∈ separators

theorem isSeparator_iff {b : UInt8} : isSeparator b = true ↔ b ∈ separators := by
  have hlist : separators = [Text.byte '(', Text.byte ')', Text.byte ',', Text.byte '+',
    Text.byte '-', 0x20, 0x09, 0x0A, 0x0D] := by decide
  rw [hlist]
  simp only [isSeparator, isBlank, Bool.or_eq_true, beq_iff_eq, List.mem_cons, List.not_mem_nil,
    or_false, or_assoc]
  tauto

/-- Where neither a string nor an operator starts, no byte of theirs does. -/
theorem head?_ne_opener {s : Text} (hstring : Text.after? s "\"" = none)
    (hop : operator? s = none) : ∀ c ∈ openers, s.head? ≠ some (Text.byte c) := by
  have hsingle : openers.all fun c =>
      c == '"' || operators.any fun o => Text.ofString o.1 == [Text.byte c] := by decide
  intro c hc hhead
  obtain ⟨r, rfl⟩ := List.head?_eq_some_iff.1 hhead
  have hc := List.all_eq_true.1 hsingle c hc
  simp only [Bool.or_eq_true, beq_iff_eq, List.any_eq_true] at hc
  rcases hc with rfl | ⟨o, ho, hbytes⟩
  · have hsome : Text.after? (Text.byte '"' :: r) "\"" = some r := Text.after?_eq_some_iff.2 rfl
    rw [hsome] at hstring
    cases hstring
  · have hnone := List.findSome?_eq_none_iff.1 hop o ho
    have hpre : (Text.ofString o.1).isPrefixOf (Text.byte c :: r) = true := by
      rw [hbytes, List.isPrefixOf_iff_prefix]
      exact ⟨r, rfl⟩
    dsimp only at hnone
    rw [if_pos hpre] at hnone
    cases hnone

/-- What stands behind all trivia starts with no blank and no comment. -/
theorem head_of_triviaSize_eq_zero {a : UInt8} {r : Text} (h : triviaSize false (a :: r) = 0) :
    isBlank a = false ∧ ¬ (a = Text.byte '/' ∧ r.head? = some (Text.byte '/')) := by
  rw [triviaSize] at h
  split at h
  · omega
  split at h
  · omega
  · rename_i hblank hcomment
    rw [Bool.and_eq_true, beq_iff_eq, beq_iff_eq] at hcomment
    exact ⟨Bool.not_eq_true _ ▸ hblank, hcomment⟩

/-- **What is counted as an identifier is one**, and it does not go on. -/
theorem identifier_take {s : Text} (hs : s ≠ []) (htrivia : triviaSize false s = 0)
    (hdigits : digitsSize s = 0) (hstring : Text.after? s "\"" = none)
    (hop : operator? s = none) :
    Identifier (s.take (identSize s)) (s.drop (identSize s)) := by
  obtain ⟨a, r, rfl⟩ := List.exists_cons_of_ne_nil hs
  have hopener := head?_ne_opener hstring hop
  have htake : (a :: r).take (identSize (a :: r)) = a :: r.takeWhile (!isSeparator ·) := by
    rw [identSize, Nat.add_comm, List.take_succ_cons]
    exact congrArg (a :: ·) (List.prefix_iff_eq_take.1 (List.takeWhile_prefix _)).symm
  have hdrop : (a :: r).drop (identSize (a :: r)) = r.dropWhile (!isSeparator ·) := by
    rw [identSize, Nat.add_comm, List.drop_succ_cons]
    exact drop_length_takeWhile _ r
  have hclean : ∀ b ∈ r.takeWhile (!isSeparator ·), isSeparator b = false := by
    intro b hb
    simpa using List.mem_takeWhile_imp (p := (!isSeparator ·)) hb
  have hdigit : ∀ c, Utf8.head? (a :: r.takeWhile (!isSeparator ·)) = some (.char c) →
      isDigit c = false := by
    intro c hc
    by_contra hdigit
    have hne := digitsSize_append_ne_zero ⟨c, hc, Bool.not_eq_false _ ▸ hdigit⟩
      (r.dropWhile (!isSeparator ·))
    rw [List.cons_append, List.takeWhile_append_dropWhile] at hne
    exact hne hdigits
  -- The first byte is taken unseen: it separates nothing, since no other lexeme starts here.
  have hfirst : isSeparator a = false := by
    have hother : ∀ c ∈ openers, a ≠ Text.byte c := fun c hc ha => hopener c hc (by rw [ha]; rfl)
    have hblank := (head_of_triviaSize_eq_zero htrivia).1
    simp only [isSeparator, hblank, hother '(' (by decide), hother ')' (by decide),
      hother ',' (by decide), hother '+' (by decide), hother '-' (by decide), beq_eq_false_iff_ne,
      Bool.or_eq_false_iff, ne_eq, not_false_eq_true, and_self]
  rw [htake, hdrop]
  refine ⟨List.cons_ne_nil _ _, fun c hc => ⟨hdigit c hc, fun hmem => ?_⟩, ?_, ?_⟩
  · have hsmall : openers.all (·.toNat < 0x80) := by decide
    have hbyte := Utf8.byte_of_head? hc (of_decide_eq_true (List.all_eq_true.1 hsmall c hmem))
    exact hopener c hmem hbyte
  · intro b hb
    rw [← isSeparator_iff, Bool.not_eq_true]
    rcases List.mem_cons.1 hb with rfl | hb
    · exact hfirst
    · exact hclean b hb
  · intro b hb
    rw [← isSeparator_iff]
    have hnot := List.head?_dropWhile_not (!isSeparator ·) r
    rw [Option.mem_def.1 hb] at hnot
    simpa using hnot

/-! ## Raw literals -/

/-- What is kept of a raw literal. -/
structure RawKept (s : Text) : Prop where
  braces : Balanced s
  first : ∀ b ∈ s.head?, isBlank b = false
  last : ∀ b ∈ s.getLast?, isBlank b = false

/-- Blanks at the ends of a text do not change whether its braces match. -/
theorem Balanced.of_trims {inner l core r : Text} (h : Balanced inner) (ht : Trims inner l core r) :
    Balanced core := by
  have hnone {s : Text} (hs : ∀ b ∈ s, isBlank b = true) :
      s.count openBrace = 0 ∧ s.count closeBrace = 0 :=
    ⟨List.count_eq_zero.2 fun hmem => absurd (hs _ hmem) (by decide),
      List.count_eq_zero.2 fun hmem => absurd (hs _ hmem) (by decide)⟩
  obtain ⟨hopenl, hclosel⟩ := hnone ht.left
  obtain ⟨hopenr, hcloser⟩ := hnone ht.right
  obtain ⟨htotal, hnever⟩ := h
  rw [ht.split] at htotal hnever
  constructor
  · simp only [List.count_append] at htotal
    omega
  · intro p hp
    have hpre : l ++ p <+: l ++ (core ++ r) :=
      (List.prefix_append_right_inj l).2 (hp.trans (List.prefix_append core r))
    have hle := hnever _ hpre
    simp only [List.count_append] at hle
    omega

/-- **What is kept of a raw literal** has braces that match and no blank at its ends. -/
theorem rawKept_of_read {s : Text} {lead size total : Nat} (h : read s = raw lead size total) :
    RawKept ((s.drop lead).take size) := by
  obtain ⟨l, core, htext, rfl, rfl⟩ := rawText_of_read h
  obtain ⟨whole, rest, hwhole, rfl⟩ : ∃ whole rest, s.take total = whole ∧ s = whole ++ rest :=
    ⟨_, s.drop total, rfl, (List.take_append_drop total s).symm⟩
  rw [hwhole] at htext
  cases htext with
  | @intro inner _ _ r dash braces blanks tail =>
    have hkept : ((Text.ofString "-\x7b" ++ (inner ++ closeBrace :: dash) ++ rest).drop
        (2 + l.length)).take core.length = core := by
      have hbrace : ∀ r : Text, (Text.ofString "-\x7b" ++ r).drop 2 = r := fun _ => rfl
      rw [blanks.split, ← List.drop_drop]
      simp only [List.append_assoc]
      rw [hbrace, List.drop_left, List.take_left]
    rw [hkept]
    exact ⟨braces.of_trims blanks, blanks.first, blanks.last⟩

end Lexeme

/-! ## Operators -/

/-- How operators are spelled. -/
def Kind.spellings : Kind → List String
  | .lparen => ["("]
  | .rparen => [")"]
  | .comma => [","]
  | .bang => ["!"]
  | .bangEq => ["!="]
  | .assign => ["="]
  | .eqEq => ["=="]
  | .gt => [">"]
  | .gtEq => [">="]
  | .lt => ["<"]
  | .ltEq => ["<="]
  | .plus => ["+"]
  | .minus => ["-"]
  | .star => ["*"]
  | .slash => ["\\", "/"]
  | _ => []

namespace Lexeme

/-- An operator in front of `rest`, which makes it no longer one, no raw literal and no
comment. -/
structure Operator (kind : Kind) (s rest : Text) : Prop where
  spelled : ∃ spelling ∈ kind.spellings, s = Text.ofString spelling
  longest : ∀ k : Kind, ∀ spelling ∈ k.spellings, Text.ofString spelling <+: s ++ rest →
    (Text.ofString spelling).length ≤ s.length
  raw : ¬ Text.ofString "-\x7b" <+: s ++ rest
  comment : ¬ Text.ofString "//" <+: s ++ rest

theorem mem_operators {k : Kind} {spelling : String} (h : spelling ∈ k.spellings) :
    (spelling, k) ∈ operators := by
  have hall : ∀ k ∈ Kind.all, ∀ spelling ∈ k.spellings, (spelling, k) ∈ operators := by decide
  cases k with
  | unknown => cases h
  | _ => exact hall _ (by decide) spelling h

/-- **What is found as an operator is one**, and the longest there is. -/
theorem operator_take {s : Text} {kind : Kind} {n : Nat} (htrivia : triviaSize false s = 0)
    (hraw : Text.after? s "-\x7b" = none) (h : operator? s = some (kind, n)) :
    Operator kind (s.take n) (s.drop n) := by
  have hspelled : ∀ o ∈ operators, o.1 ∈ o.2.spellings := by decide
  have hsorted : operators.Pairwise fun o o' =>
      (Text.ofString o'.1).length ≤ (Text.ofString o.1).length := by decide
  obtain ⟨front, o, back, hsplit, hfound, hfront⟩ := List.findSome?_eq_some_iff.1 h
  dsimp only at hfound
  split at hfound
  · rename_i hpre
    obtain ⟨rfl, rfl⟩ := Prod.mk.inj (Option.some.inj hfound)
    have htake : s.take (Text.ofString o.1).length = Text.ofString o.1 :=
      (List.prefix_iff_eq_take.1 (List.isPrefixOf_iff_prefix.1 hpre)).symm
    have ho : o ∈ operators := hsplit ▸ List.mem_append_right _ List.mem_cons_self
    refine ⟨⟨o.1, hspelled o ho, htake⟩, fun k spelling hk hlong => ?_, ?_, ?_⟩
    · rw [List.take_append_drop] at hlong
      rw [htake]
      have hmem := mem_operators hk
      rw [hsplit] at hmem hsorted
      rcases List.mem_append.1 hmem with hmem | hmem
      · have hnone := hfront _ hmem
        dsimp only at hnone
        rw [if_pos (List.isPrefixOf_iff_prefix.2 hlong)] at hnone
        cases hnone
      · rcases List.mem_cons.1 hmem with rfl | hmem
        · exact le_rfl
        · exact (List.pairwise_cons.1 (List.pairwise_append.1 hsorted).2.1).1 _ hmem
    · rw [List.take_append_drop]
      rintro ⟨r, rfl⟩
      rw [Text.after?_eq_some_iff.2 rfl] at hraw
      cases hraw
    · rw [List.take_append_drop]
      rintro ⟨r, rfl⟩
      exact (head_of_triviaSize_eq_zero htrivia).2 ⟨rfl, rfl⟩
  · cases hfound

/-! ## Keywords -/

/-- A keyword in front of `rest`.  The space that ends it belongs to it; nothing else that
ends it does. -/
inductive KeywordText (kind : Kind) (rest : Text) : Text → Prop where
  | spaced {k : Keyword} (known : k ∈ Keyword.table) (kind_eq : k.kind = kind)
      (delimited : k.delimited = true) : KeywordText kind rest (k.spelling ++ [0x20])
  | bare {k : Keyword} (known : k ∈ Keyword.table) (kind_eq : k.kind = kind)
      (stop : k.delimited = true → ∀ b ∈ rest.head?, Keyword.isDelimiter b = true) :
      KeywordText kind rest k.spelling

theorem keywordText_take {s : Text} {kind : Kind} {n : Nat} (h : Keyword.find? s = some (kind, n)) :
    KeywordText kind (s.drop n) (s.take n) := by
  obtain ⟨k, hk, h⟩ := List.exists_of_findSome?_eq_some h
  obtain ⟨m, hm, h⟩ := Option.map_eq_some_iff.1 h
  obtain ⟨rfl, rfl⟩ := Prod.mk.inj h
  rw [Keyword.size?] at hm
  split at hm
  · cases hm
  · rename_i rest hrest
    obtain rfl := Text.isPrefixOf?_eq_some_iff.1 hrest
    split at hm
    · rename_i hdelimited
      obtain ⟨d, hd, rfl⟩ := Option.map_eq_some_iff.1 hm
      rw [List.take_length_add_append, List.drop_length_add_append]
      cases rest with
      | nil =>
        rw [List.take_nil, List.append_nil, List.drop_nil]
        exact .bare hk rfl fun _ => by simp
      | cons b r =>
        rw [Keyword.delimiterSize?] at hd
        split at hd
        · rename_i hb
          obtain rfl := Option.some.inj hd
          rw [List.take_zero, List.append_nil]
          refine .bare hk rfl fun _ b' hb' => ?_
          obtain rfl := Option.some.inj hb'
          exact hb
        · split at hd
          · rename_i hb
            obtain rfl := Option.some.inj hd
            obtain rfl : b = 0x20 := beq_iff_eq.1 hb
            exact .spaced hk rfl hdelimited
          · cases hd
    · rename_i hdelimited
      obtain rfl := Option.some.inj hm
      rw [List.take_left, List.drop_left]
      exact .bare hk rfl fun h => absurd h hdelimited

/-! ## All kinds -/

/-- The text `s` in front of `rest` is one of the kind, and as long as it can be. -/
def Spelled (kind : Kind) (s rest : Text) : Prop :=
  match kind with
  | .numberLit => Number rest s
  | .stringLit => StringText s
  | .ident => Identifier s rest
  | .rawLit => RawKept s
  | .endOfInput => s = [] ∧ rest = []
  | .invalid | .unknown => False
  | kind => if kind.isKeyword then KeywordText kind rest s else Operator kind s rest

theorem spelled_of_isKeyword {kind : Kind} {s rest : Text} (hkind : kind.isKeyword = true)
    (h : KeywordText kind rest s) : Spelled kind s rest := by
  cases kind <;> first | exact h | cases hkind

theorem spelled_of_isPunctuation {kind : Kind} {s rest : Text} (hkind : kind.isPunctuation = true)
    (h : Operator kind s rest) : Spelled kind s rest := by
  cases kind <;> first | exact h | cases hkind

/-- **What is read as a token is one of its kind**, where no trivia stands before it. -/
theorem spelled_of_read {s : Text} {kind : Kind} {n : Nat} (hs : s ≠ [])
    (htrivia : triviaSize false s = 0) (h : read s = token kind n) :
    Spelled kind (s.take n) (s.drop n) := by
  rw [read] at h
  split at h
  · rename_i hdigits
    obtain ⟨rfl, rfl⟩ := token.inj h
    exact number_take hdigits
  · rename_i hdigits
    split at h
    · rw [rawLiteral] at h
      split at h <;> cases h
    · rename_i r hraw hstring
      obtain rfl := Text.after?_eq_some_iff.1 hstring
      rw [string] at h
      split at h
      · cases h
      · rename_i m hm
        obtain ⟨rfl, rfl⟩ := token.inj h
        exact stringText_take hm
    · rename_i hraw hstring hop
      obtain ⟨rfl, rfl⟩ := token.inj h
      exact spelled_of_isPunctuation (operator?_spec hop).1 (operator_take htrivia hraw hop)
    · rename_i hraw hstring hop
      rw [word] at h
      split at h
      · rename_i hkeyword
        obtain ⟨rfl, rfl⟩ := token.inj h
        exact spelled_of_isKeyword (Keyword.find?_spec hkeyword).1 (keywordText_take hkeyword)
      · obtain ⟨rfl, rfl⟩ := token.inj h
        exact identifier_take hs htrivia (not_not.1 hdigits) hstring hop

/-- Behind all trivia there is none. -/
theorem triviaSize_drop (comment : Bool) (s : Text) :
    triviaSize false (s.drop (triviaSize comment s)) = 0 := by
  fun_induction triviaSize comment s with
  | case1 => rfl
  | case2 b r ih => rwa [Nat.add_comm, List.drop_succ_cons]
  | case3 b r _ ih => rwa [Nat.add_comm, List.drop_succ_cons]
  | case4 b r _ _ ih => rwa [Nat.add_comm, List.drop_succ_cons]
  | case5 b r hblank hcomment =>
    rw [List.drop_zero, triviaSize, if_neg hblank, if_neg hcomment]

end Lexeme

/-- The token covers a text of its kind, which stands in the content before `rest`. -/
def Token.SpelledIn (file : FileId) (content : Text) (t : Token) : Prop :=
  ∃ before s rest, content = before ++ (s ++ rest) ∧
    t.span = ⟨file, UInt32.ofNat before.length, UInt32.ofNat (before.length + s.length)⟩ ∧
    Lexeme.Spelled t.kind s rest

namespace Cursor.At

variable {file : FileId} {content : Text} {pos : Nat} {c : Cursor}

theorem spelledIn_span (h : c.At file content pos) (kind : Kind) (line : UInt32)
    (lead size : Nat) (hle : lead + size ≤ c.rest.length)
    (hs : Lexeme.Spelled kind ((c.rest.drop lead).take size) (c.rest.drop (lead + size))) :
    Token.SpelledIn file content ⟨kind, line, c.span lead size⟩ := by
  have hlen := h.length_rest
  have hin := h.inside
  rw [h.rest_eq, List.drop_drop, List.drop_drop] at hs
  have hbefore : (content.take (pos + lead)).length = pos + lead :=
    List.length_take_of_le (by omega)
  have hsize : ((content.drop (pos + lead)).take size).length = size := by
    rw [List.length_take, List.length_drop]
    omega
  refine ⟨content.take (pos + lead), _, _, ?_, ?_, hs⟩
  · rw [← Nat.add_assoc, ← List.drop_drop (i := size), List.take_append_drop,
      List.take_append_drop]
  · rw [hbefore, hsize, Nat.add_assoc]
    exact h.span_eq lead size

theorem spelledIn_endToken (h : c.At file content pos) (hpos : pos = content.length) :
    c.endToken.SpelledIn file content := by
  subst hpos
  refine ⟨content, [], [], (List.append_nil _).symm, ?_, rfl, rfl⟩
  rw [endToken, h.file_eq, h.off_eq]
  rfl

/-- A token that is fetched behind all trivia. -/
theorem spelledIn_fetchHere (h : c.At file content pos)
    (htrivia : Lexeme.triviaSize false c.rest = 0) :
    c.fetchHere.token.SpelledIn file content := by
  have hlen := h.length_rest
  have hin := h.inside
  have hend := (h.skip (le_refl c.rest.length)).spelledIn_endToken (by omega)
  rw [Cursor.fetchHere]
  split
  · rename_i hrest
    rw [hrest, List.length_nil] at hlen
    exact h.spelledIn_endToken (by omega)
  · rename_i hrest
    have hfits := Lexeme.read_fits hrest
    split <;> rename_i hread <;> rw [hread] at hfits
    · rename_i kind size
      have hs := Lexeme.spelled_of_read hrest htrivia hread
      have hle := hfits.2.1
      exact h.spelledIn_span kind c.line 0 size (by omega) (by rwa [List.drop_zero, Nat.zero_add])
    · rename_i lead size total
      obtain ⟨hlt, hle⟩ := hfits
      exact h.spelledIn_span .rawLit _ lead size (by omega) (Lexeme.rawKept_of_read hread)
    · exact hend
    · exact hend

theorem spelledIn_fetch (h : c.At file content pos) : c.fetch.token.SpelledIn file content :=
  h.skipTrivia.spelledIn_fetchHere (Lexeme.triviaSize_drop false c.rest)

/-- **Whatever is fetched up to the end** is a token of its kind. -/
theorem spelledIn_fetchAll (h : c.At file content pos) :
    ∀ f ∈ c.fetchAll, f.token.SpelledIn file content := by
  fun_induction Cursor.fetchAll c generalizing pos with
  | case1 c _ => exact List.forall_mem_singleton.2 h.spelledIn_fetch
  | case2 c hend ih =>
    refine List.forall_mem_cons.2 ⟨h.spelledIn_fetch, ?_⟩
    cases h.fetch with
    | token _ _ _ _ _ _ cursor => exact ih cursor
    | finish kind _ _ => exact absurd kind hend

end Cursor.At

/-- Every token of a content covers a text of its kind. -/
theorem Token.spelledIn_of_mem_tokenize {file : FileId} {content : Text} {t : Token}
    (h : t ∈ (tokenize file content).tokens) : t.SpelledIn file content := by
  obtain ⟨f, hf, rfl⟩ := List.mem_map.1 h
  exact (Cursor.start_at file content).spelledIn_fetchAll f hf

/-- On a content that words can index, the text of a token is what it covers. -/
theorem Token.text_of_span {file : FileId} {content before s rest : Text} {t : Token}
    (hcontent : content = before ++ (s ++ rest))
    (hspan : t.span = ⟨file, UInt32.ofNat before.length, UInt32.ofNat (before.length + s.length)⟩)
    (hshort : content.length < 2 ^ 32) : t.text content = s := by
  have hsize : UInt32.size = 2 ^ 32 := rfl
  have hlen : content.length = before.length + (s.length + rest.length) := by
    rw [hcontent, List.length_append, List.length_append]
  rw [Token.text, hspan, Span.slice, UInt32.toNat_ofNat_of_lt' (by omega),
    UInt32.toNat_ofNat_of_lt' (by omega), Nat.add_sub_cancel_left, hcontent, List.drop_left,
    List.take_left]

/-- **Every token is a text of its kind, and as long as it can be.**  A content, valid UTF-8
or not, splits around each of its tokens into what comes before, the text that the span of
the token covers, and what comes behind; and the text belongs to the kind of the token there
(`Lexeme.Spelled`).  If words can index the content, this text is the text of the token. -/
theorem tokenize_spelled (file : FileId) (content : Text) :
    ∀ t ∈ (tokenize file content).tokens, ∃ before s rest,
      content = before ++ (s ++ rest) ∧
      t.span = ⟨file, UInt32.ofNat before.length, UInt32.ofNat (before.length + s.length)⟩ ∧
      Lexeme.Spelled t.kind s rest ∧
      (content.length < 2 ^ 32 → t.text content = s) := by
  intro t ht
  obtain ⟨f, hf, rfl⟩ := List.mem_map.1 ht
  obtain ⟨before, s, rest, hcontent, hspan, hs⟩ :=
    (Cursor.start_at file content).spelledIn_fetchAll f hf
  exact ⟨before, s, rest, hcontent, hspan, hs, Token.text_of_span hcontent hspan⟩

/-- The second comma does not belong to the number before it, which has one inside. -/
theorem tokenize_spelled_commas :
    (⟨.numberLit, 1, ⟨0, 0, 3⟩⟩ : Token) ∈ (tokenize 0 "1,2,3").tokens ∧
      ∃ before s rest, ("1,2,3" : Text) = before ++ (s ++ rest) ∧
        (⟨0, 0, 3⟩ : Span) =
          ⟨0, UInt32.ofNat before.length, UInt32.ofNat (before.length + s.length)⟩ ∧
        Lexeme.Number rest s ∧ Text.ofString "1,2" = s := by
  have hmem : (⟨.numberLit, 1, ⟨0, 0, 3⟩⟩ : Token) ∈ (tokenize 0 "1,2,3").tokens := by
    decide +kernel
  obtain ⟨before, s, rest, hcontent, hspan, hs, htext⟩ := tokenize_spelled 0 "1,2,3" _ hmem
  exact ⟨hmem, before, s, rest, hcontent, hspan, hs, htext (by decide)⟩

end Tarjuman
