/-
# Manifests that are read back

A manifest is written as eight lines, each with one statement:

| line | statement |
| --- | --- |
| `[package]` | the header of a table |
| `name = ".."` | a pair of a key and a text |
| `[build]` | the header of a table |
| `src = ".."`, `out = ".."`, `separator = ".."` | a key and a text |
| `latinize = ..`, `banner = ..` | a key and a truth value |

Each way to write a statement is read as that statement in front of a line end (`Toml.Reads`), so the
lines are read as their statements (`Toml.statements?_laid`), and these define what the manifest says.
Whether the text is read at all hangs on its characters: the bytes of a text between quotes are
escaped one by one, which takes away control codes but leaves stray bytes and U+FFFD as they are
(`Toml.isReadable_quoted`).  So a manifest is read back exactly if its texts are UTF-8 without U+FFFD,
with blanks around the name and the sources taken away (`Manifest.ofText_render`).
-/

import Mathlib
import Tarjuman.Project.Manifest
import Tarjuman.Proofs.CharacterBoundaries
import Tarjuman.Proofs.SeparatorEscapes

namespace Tarjuman
namespace Toml

/-! ## Texts between quotes -/

open Manifest (escapeOf)

theorem stringFrom_append (quote : UInt8) (w r : Text) :
    stringFrom quote w.length (w ++ r) = stringFrom quote 0 r := by
  induction w with
  | nil => rfl
  | cons b w ih => exact ih

/-- What stands behind a backslash is read as one byte, whatever follows. -/
theorem stringFrom_escape {w : Text} {b : UInt8} (h : ∀ r, escape? (w ++ r) = some ([b], w.length))
    (r : Text) :
    stringFrom (Text.byte '"') 0 (Text.byte '\\' :: (w ++ r)) =
      onto [b] (stringFrom (Text.byte '"') 0 r) := by
  rw [stringFrom, if_neg (by decide), if_neg (by decide), if_pos (by decide), h]
  dsimp only
  rw [stringFrom_append]

/-- A control code is written by its number. -/
theorem escape?_code {b : UInt8} (hb : Utf8.isSingle b = true) (r : Text) :
    escape? (Text.byte 'u' :: Text.hexPadded 4 b.toNat ++ r) =
      some ([b], (Text.byte 'u' :: Text.hexPadded 4 b.toNat).length) := by
  obtain ⟨c, hc, hlt⟩ := Utf8.exists_encode_of_isSingle hb
  have hn : b.toNat = c.toNat := by
    rw [Utf8.encode_of_lt hlt, List.singleton_inj] at hc
    rw [← hc]
    exact Utf8.toNat_first (by omega)
  obtain ⟨ds, htext, hlength, hdigits, hvalue⟩ :=
    Text.exists_hexPadded (w := 3) (n := b.toNat) (by omega)
  have hfour : (ds.map Text.digit).length = 4 := by rw [List.length_map, hlength]
  have hcoded (t : Text) : escape? (Text.byte 'u' :: t) =
      if (t.take 4).length = 4 then (Quoted.codePoint? (t.take 4)).map (·, 5) else none := rfl
  rw [htext, List.cons_append, hcoded, List.take_left' hfour, if_pos hfour,
    Quoted.codePoint?_digits hdigits (hvalue.trans hn), hc, Option.map_some, List.length_cons, hfour]

/-- **The ways to write a byte between quotes**: by a letter, by its number, or as it is. -/
theorem escapeOf_cases (b : UInt8) :
    (∃ l, escapeOf b = [Text.byte '\\', l] ∧ (∀ r, escape? (l :: r) = some ([b], 1)) ∧
      Utf8.isSingle b = true ∧ Utf8.isSingle l = true ∧ isControl l = false ∧ l ≠ 0x0D) ∨
    (escapeOf b = Text.byte '\\' :: Text.byte 'u' :: Text.hexPadded 4 b.toNat ∧
      Utf8.isSingle b = true) ∨
    (escapeOf b = [b] ∧ b ≠ Text.byte '"' ∧ b ≠ Text.byte '\\' ∧ isBreak b = false ∧
      isControl b = false) := by
  rw [escapeOf]
  split
  next hmark =>
    rw [Bool.or_eq_true, beq_iff_eq, beq_iff_eq] at hmark
    rcases hmark with rfl | rfl <;> exact .inl ⟨_, rfl, fun r => rfl, by decide⟩
  next hmark =>
    rw [Bool.or_eq_true, beq_iff_eq, beq_iff_eq, not_or] at hmark
    iterate 5
      split
      next hb =>
        obtain rfl := eq_of_beq hb
        exact .inl ⟨_, rfl, fun r => rfl, by decide⟩
    next hline _ hreturn =>
      split
      next hcode =>
        refine .inr (.inl ⟨rfl, ?_⟩)
        rw [Bool.or_eq_true, decide_eq_true_eq, beq_iff_eq] at hcode
        rcases hcode with hb | rfl
        · exact decide_eq_true (UInt8.lt_trans hb (by decide))
        · rfl
      next hcode =>
        rw [Bool.not_eq_true, Bool.or_eq_false_iff] at hcode
        refine .inr (.inr ⟨rfl, hmark.1, hmark.2, ?_, ?_⟩)
        · rw [isBreak, Bool.or_eq_false_iff]
          exact ⟨Bool.eq_false_iff.2 hline, Bool.eq_false_iff.2 hreturn⟩
        · rw [isControl, hcode.1, hcode.2]
          rfl

/-- **A byte is read as it was written.** -/
theorem stringFrom_escapeOf (b : UInt8) (r : Text) :
    stringFrom (Text.byte '"') 0 (escapeOf b ++ r) =
      onto [b] (stringFrom (Text.byte '"') 0 r) := by
  rcases escapeOf_cases b with ⟨l, hb, hl, -⟩ | ⟨hb, hsingle⟩ | ⟨hb, hquote, hmark, hbreak, -⟩
  · rw [hb]
    exact stringFrom_escape (w := [l]) hl r
  · rw [hb]
    exact stringFrom_escape (w := Text.byte 'u' :: Text.hexPadded 4 b.toNat) (escape?_code hsingle) r
  · have hplain : (b == Text.byte '\\' && Text.byte '"' == Text.byte '"') = false := by
      simp [hmark]
    rw [hb, List.singleton_append, stringFrom, if_neg (by simp [hquote]), hbreak,
      if_neg Bool.false_ne_true, hplain, if_neg Bool.false_ne_true]

theorem stringFrom_quoted (s r : Text) :
    stringFrom (Text.byte '"') 0 (s.flatMap escapeOf ++ Text.byte '"' :: r) = some (s, r) := by
  induction s with
  | nil => rfl
  | cons b s ih =>
    rw [List.flatMap_cons, List.append_assoc, stringFrom_escapeOf, ih]
    rfl

/-- A string on one line, unless two quotes stand at the front. -/
theorem string?_of_not_prefix {quote : UInt8} {t : Text} (h : ¬ [quote, quote] <+: t) :
    string? quote t = stringFrom quote 0 t := by
  rw [string?.eq_def]
  split
  next b c r =>
    refine if_neg fun hquotes => h ?_
    rw [Bool.and_eq_true, beq_iff_eq, beq_iff_eq] at hquotes
    rw [hquotes.1, hquotes.2]
    exact ⟨r, rfl⟩
  next => rfl

theorem escapeOf_ne_nil (b : UInt8) : escapeOf b ≠ [] := by
  rcases escapeOf_cases b with ⟨l, hb, -⟩ | ⟨hb, -⟩ | ⟨hb, -⟩ <;> rw [hb] <;>
    exact List.cons_ne_nil _ _

/-- A byte of ASCII is written in ASCII, without control codes. -/
theorem escapeOf_single {b : UInt8} (h : Utf8.isSingle b = true) :
    ∀ x ∈ escapeOf b, Utf8.isSingle x = true ∧ isControl x = false ∧ x ≠ 0x0D := by
  rcases escapeOf_cases b with ⟨l, hb, -, -, hl⟩ | ⟨hb, -⟩ | ⟨hb, -, -, hbreak, hcontrol⟩
  · rw [hb]
    exact List.forall_mem_cons.2 ⟨by decide, List.forall_mem_singleton.2 hl⟩
  · obtain ⟨ds, htext, -, hdigits, -⟩ := Text.exists_hexPadded (w := 3) (n := b.toNat)
      (b.toNat_lt.trans (by decide))
    have hdigit : ∀ d < 16, Utf8.isSingle (Text.digit d) = true ∧ isControl (Text.digit d) = false ∧
        Text.digit d ≠ 0x0D := by decide
    rw [hb, htext]
    refine List.forall_mem_cons.2 ⟨by decide, List.forall_mem_cons.2 ⟨by decide, ?_⟩⟩
    exact List.forall_mem_map.2 fun d hd => hdigit d (hdigits d hd)
  · rw [hb]
    refine List.forall_mem_singleton.2 ⟨h, hcontrol, ?_⟩
    rintro rfl
    cases hbreak

theorem escapeOf_not_single {b : UInt8} (h : Utf8.isSingle b = false) :
    escapeOf b = [b] ∧ isControl b = false ∧ b ≠ 0x0D := by
  rcases escapeOf_cases b with ⟨l, -, -, hb, -⟩ | ⟨-, hb⟩ | ⟨hb, -, -, hbreak, hcontrol⟩
  · cases h.symm.trans hb
  · cases h.symm.trans hb
  · refine ⟨hb, hcontrol, ?_⟩
    rintro rfl
    cases hbreak

/-- What is escaped does not start with a quote. -/
theorem head?_escapeOf_append (b : UInt8) (r : Text) :
    (escapeOf b ++ r).head? ≠ some (Text.byte '"') := by
  rcases escapeOf_cases b with ⟨l, hb, -⟩ | ⟨hb, -⟩ | ⟨hb, hquote, -⟩ <;> rw [hb]
  · exact fun h => absurd (Option.some.inj h) (by decide)
  · exact fun h => absurd (Option.some.inj h) (by decide)
  · exact fun h => hquote (Option.some.inj h)

/-! ## Statements on a line -/

/-- The text is read as the statement in front of a line end. -/
def Reads (line : Text) (st : Statement) : Prop :=
  ∀ r : Text, r.head? = some 0x0A → statement? (line ++ r) = some (st, r)

theorem value?_quoted (n : Nat) (s : Text) {r : Text} (hr : r.head? = some 0x0A) :
    value? (n + 1) (Manifest.quoted s ++ r) = some (.text s, r) := by
  have hfront : ¬ [Text.byte '"', Text.byte '"'] <+: s.flatMap escapeOf ++ Text.byte '"' :: r := by
    rintro ⟨u, hu⟩
    cases s with
    | nil =>
      rw [← (List.cons.inj hu).2] at hr
      exact absurd (Option.some.inj hr) (by decide)
    | cons b s =>
      rw [List.flatMap_cons, List.append_assoc] at hu
      exact head?_escapeOf_append b _ (congrArg List.head? hu).symm
  have hstart : Manifest.quoted s ++ r =
      Text.byte '"' :: (s.flatMap escapeOf ++ Text.byte '"' :: r) := by
    rw [Manifest.quoted, List.append_assoc, List.append_assoc]
    rfl
  rw [hstart, value?, if_neg (by decide), if_neg (by decide), if_pos (by decide),
    string?_of_not_prefix hfront, stringFrom_quoted, Option.map_some]

theorem value?_truth (n : Nat) (b : Bool) (r : Text) :
    value? (n + 1) (Manifest.shownTruth b ++ r) = some (.truth b, r) := by
  cases b <;> rfl

theorem isBare_facts : ∀ b : UInt8, isBare b = true → isBlank b = false ∧ isQuote b = false ∧
    b ≠ Text.byte '[' ∧ isBreak b = false ∧ b ≠ Text.byte '#' ∧ Utf8.isSingle b = true ∧
    isControl b = false := by
  decide +kernel

/-- A key of bare bytes. -/
structure Bare (k : Text) : Prop where
  ne_nil : k ≠ []
  bare : ∀ b ∈ k, isBare b = true

theorem Bare.key? {k : Text} (hk : Bare k) (n : Nat) {x : UInt8} {rest : Text} {b : UInt8} {r : Text}
    (hstop : isBare x = false) (hrest : afterBlanks (x :: rest) = b :: r)
    (hdot : b ≠ Text.byte '.') : Toml.key? (n + 1) (k ++ x :: rest) = some ([k], b :: r) := by
  have hstop : ¬ isBare x = true := by rw [hstop]; exact Bool.false_ne_true
  obtain ⟨c, t, rfl⟩ := List.exists_cons_of_ne_nil hk.ne_nil
  have hc := hk.bare c List.mem_cons_self
  obtain ⟨hblank, hquote, -⟩ := isBare_facts c hc
  have hpart : keyPart? (afterBlanks (c :: t ++ x :: rest)) = some (c :: t, x :: rest) := by
    have htake : (c :: t ++ x :: rest).takeWhile isBare = c :: t := by
      rw [List.takeWhile_append_of_pos hk.bare, List.takeWhile_cons_of_neg hstop, List.append_nil]
    have hdrop : (c :: t ++ x :: rest).dropWhile isBare = x :: rest := by
      rw [List.dropWhile_append_of_pos hk.bare, List.dropWhile_cons_of_neg hstop]
    rw [List.cons_append] at htake hdrop ⊢
    rw [afterBlanks, List.dropWhile_cons_of_neg (by simp [hblank]), keyPart?, hquote,
      if_neg Bool.false_ne_true, if_pos hc, htake, hdrop]
  rw [Toml.key?, hpart]
  dsimp only
  rw [hrest]
  dsimp only
  rw [if_neg (by rwa [beq_iff_eq])]

/-- No bracket stands at the front of a bare key. -/
theorem Bare.after?_bracket {k : Text} (hk : Bare k) (rest p : Text) :
    Text.after? (k ++ rest) (Text.byte '[' :: p) = none := by
  obtain ⟨c, t, rfl⟩ := List.exists_cons_of_ne_nil hk.ne_nil
  obtain ⟨-, -, hbracket, -⟩ := isBare_facts c (hk.bare c List.mem_cons_self)
  exact if_neg fun h => hbracket (eq_of_beq h).symm

theorem Bare.keyAndSign? {k : Text} (hk : Bare k) (v : Text) :
    Toml.keyAndSign? (k ++ " = " ++ v) = some ([k], afterBlanks v) := by
  have hkey : Toml.key? ((k ++ " = " ++ v).length + 1) (k ++ " = " ++ v) =
      some ([k], Text.byte '=' :: Text.byte ' ' :: v) := by
    rw [List.append_assoc]
    exact hk.key? (x := Text.byte ' ') _ rfl rfl (by decide)
  rw [Toml.keyAndSign?, hkey]
  rfl

/-- The header of a table. -/
theorem Bare.reads_header {k : Text} (hk : Bare k) : Reads ("[" ++ k ++ "]") (.header [k]) := by
  intro r _
  have hkey : Toml.key? ((k ++ (Text.byte ']' :: r)).length + 1) (k ++ (Text.byte ']' :: r)) =
      some ([k], Text.byte ']' :: r) := hk.key? _ rfl rfl (by decide)
  have hone : Text.after? ("[" ++ k ++ "]" ++ r) "[" = some (k ++ (Text.byte ']' :: r)) := by
    rw [List.append_assoc, List.append_assoc]
    rfl
  have htwo : Text.after? ("[" ++ k ++ "]" ++ r) "[[" = none := by
    rw [List.append_assoc, List.append_assoc]
    exact hk.after?_bracket _ _
  rw [statement?, htwo, hone]
  dsimp only
  rw [header?, hkey]
  rfl

/-- A key with a value behind it. -/
theorem Bare.reads_pair {k : Text} (hk : Bare k) {w : Text} {v : Value}
    (hv : ∀ n (r : Text), r.head? = some 0x0A → value? (n + 1) (w ++ r) = some (v, r))
    (hw : ∀ r, afterBlanks (w ++ r) = w ++ r) : Reads (k ++ " = " ++ w) (.pair [k] v) := by
  intro r hr
  have hone : Text.after? (k ++ " = " ++ w ++ r) "[" = none := by
    rw [List.append_assoc, List.append_assoc]
    exact hk.after?_bracket _ _
  have htwo : Text.after? (k ++ " = " ++ w ++ r) "[[" = none := by
    rw [List.append_assoc, List.append_assoc]
    exact hk.after?_bracket _ _
  rw [statement?, htwo, hone]
  dsimp only
  rw [List.append_assoc, hk.keyAndSign?, hw]
  dsimp only
  rw [hv _ r hr, Option.map_some]

theorem Bare.reads_text {k : Text} (hk : Bare k) (s : Text) :
    Reads (k ++ " = " ++ Manifest.quoted s) (.pair [k] (.text s)) :=
  hk.reads_pair (fun n _ hr => value?_quoted n s hr) fun _ => rfl

theorem Bare.reads_truth {k : Text} (hk : Bare k) (b : Bool) :
    Reads (k ++ " = " ++ Manifest.shownTruth b) (.pair [k] (.truth b)) :=
  hk.reads_pair (fun n r _ => value?_truth n b r) fun _ => by cases b <;> rfl

/-! ## Texts that may be read -/

/-- The text is UTF-8 and U+FFFD is not in it. -/
def isReadable (s : Text) : Bool := Utf8.isValid s && !(Utf8.chars s).contains Utf8.replacement

theorem isPlainText_eq (s : Text) :
    isPlainText s = (isReadable s && !s.any isControl && returnsPaired s) := by
  rw [isPlainText, isReadable, Utf8.isValid]
  congr 3
  refine congrArg (Utf8.items s).all (funext fun x => ?_)
  cases x <;> rfl

theorem returnsPaired_of_not_mem {s : Text} (h : 0x0D ∉ s) : returnsPaired s = true := by
  induction s with
  | nil => rfl
  | cons b r ih =>
    rw [List.mem_cons, not_or] at h
    rw [returnsPaired, ih h.2, Bool.and_true, bne_iff_ne.2 (Ne.symm h.1), Bool.true_or]

theorem isReadable_ofChars_append (cs : List Char) (r : Text) :
    isReadable (Utf8.ofChars cs ++ r) = (!cs.contains Utf8.replacement && isReadable r) := by
  rw [isReadable, isReadable, Utf8.isValid_ofChars_append, Utf8.chars_ofChars_append,
    List.contains_append, Bool.not_or]
  cases Utf8.isValid r <;> simp

theorem isReadable_ofChars (cs : List Char) :
    isReadable (Utf8.ofChars cs) = !cs.contains Utf8.replacement := by
  have h := isReadable_ofChars_append cs []
  rwa [List.append_nil, show isReadable [] = true from rfl, Bool.and_true] at h

/-- Behind a text and in front of a byte of its own there is the end of a character. -/
theorem isReadable_append {s r : Text} (hr : ∀ b ∈ r.head?, Utf8.isSingle b = true) :
    isReadable (s ++ r) = (isReadable s && isReadable r) := by
  by_cases hs : Utf8.isValid s = true
  · obtain ⟨cs, rfl⟩ := Utf8.isValid_iff.1 hs
    rw [isReadable_ofChars_append, isReadable_ofChars]
  · have hwhole : Utf8.isValid (s ++ r) = false :=
      Bool.eq_false_iff.2 fun h => hs (Utf8.isValid_of_stops hr h)
    rw [isReadable, isReadable, hwhole, Bool.eq_false_iff.2 hs]
    rfl

theorem isReadable_encode_append (c : Char) (r : Text) :
    isReadable (Utf8.encode c ++ r) = (c != Utf8.replacement && isReadable r) := by
  have h := isReadable_ofChars_append [c] r
  rw [List.contains_cons, List.contains_nil, Bool.or_false, Bool.beq_comm] at h
  rwa [Utf8.ofChars, List.flatMap_singleton] at h

theorem isReadable_singles {s : Text} (h : ∀ b ∈ s, Utf8.isSingle b = true) (r : Text) :
    isReadable (s ++ r) = isReadable r := by
  induction s with
  | nil => rfl
  | cons b s ih =>
    obtain ⟨hb, hs⟩ := List.forall_mem_cons.1 h
    obtain ⟨c, hc, hlt⟩ := Utf8.exists_encode_of_isSingle hb
    have hne : (c != Utf8.replacement) = true := by
      rw [bne_iff_ne]
      rintro rfl
      exact absurd hlt (by decide)
    rw [List.cons_append, ← List.singleton_append, ← hc, isReadable_encode_append, hne, ih hs,
      Bool.true_and]

/-- A character outside of ASCII is not escaped. -/
theorem escaped_of_not_single {s : Text} (h : ∀ b ∈ s, Utf8.isSingle b = false) :
    s.flatMap escapeOf = s := by
  induction s with
  | nil => rfl
  | cons b s ih =>
    obtain ⟨hb, hs⟩ := List.forall_mem_cons.1 h
    rw [List.flatMap_cons, (escapeOf_not_single hb).1, ih hs, List.singleton_append]

/-- Bytes outside of ASCII in an escaped text stand in the text itself. -/
theorem exists_of_escaped_eq {r xs t : Text} (hxs : ∀ x ∈ xs, Utf8.isSingle x = false)
    (h : r.flatMap escapeOf = xs ++ t) : ∃ r', r = xs ++ r' ∧ r'.flatMap escapeOf = t := by
  induction xs generalizing r with
  | nil => exact ⟨r, rfl, h⟩
  | cons x xs ih =>
    obtain ⟨hx, hmore⟩ := List.forall_mem_cons.1 hxs
    cases r with
    | nil => cases h
    | cons y r =>
      rw [List.flatMap_cons] at h
      cases hy : Utf8.isSingle y with
      | true =>
        have hsingle := escapeOf_single hy
        obtain ⟨z, zs, hz⟩ := List.exists_cons_of_ne_nil (escapeOf_ne_nil y)
        rw [hz] at h hsingle
        obtain ⟨rfl, -⟩ := List.cons.inj h
        rw [(hsingle z List.mem_cons_self).1] at hx
        cases hx
      | false =>
        rw [(escapeOf_not_single hy).1] at h
        obtain ⟨rfl, hrest⟩ := List.cons.inj h
        obtain ⟨r', rfl, ht⟩ := ih hmore hrest
        exact ⟨r', rfl, ht⟩

/-- Escaping does not mend a text. -/
theorem isValid_of_escaped {s : Text} (h : Utf8.isValid (s.flatMap escapeOf) = true) :
    Utf8.isValid s = true := by
  induction hn : s.length using Nat.strong_induction_on generalizing s with
  | _ n ih =>
    cases s with
    | nil => rfl
    | cons b s =>
      rw [List.length_cons] at hn
      rw [List.flatMap_cons] at h
      cases hb : Utf8.isSingle b with
      | true =>
        have hfront := Utf8.isValid_of_isSingle fun x hx => (escapeOf_single hb x hx).1
        rw [Utf8.isValid_append hfront] at h
        rw [Utf8.isValid_cons hb]
        exact ih s.length (by omega) h rfl
      | false =>
        rw [(escapeOf_not_single hb).1, List.singleton_append] at h
        obtain ⟨c, t, hc⟩ := Utf8.exists_encode_of_isValid h
        obtain ⟨a, tail, hcons⟩ := List.exists_cons_of_ne_nil (Utf8.encode_ne_nil c)
        have htail := Utf8.not_isSingle_of_mem_tail (c := c)
        rw [hc, Utf8.isValid_encode_append] at h
        rw [hcons] at hc
        rw [hcons, List.tail_cons] at htail
        obtain ⟨rfl, hrest⟩ := List.cons.inj hc
        obtain ⟨r', rfl, rfl⟩ := exists_of_escaped_eq htail hrest
        rw [← List.cons_append, ← hcons, Utf8.isValid_encode_append]
        rw [List.length_append] at hn
        exact ih r'.length (by omega) h rfl

/-- **Escaping leaves what cannot be read as it is.** -/
theorem isReadable_escaped (s : Text) : isReadable (s.flatMap escapeOf) = isReadable s := by
  by_cases hs : Utf8.isValid s = true
  · obtain ⟨cs, rfl⟩ := Utf8.isValid_iff.1 hs
    clear hs
    induction cs with
    | nil => rfl
    | cons c cs ih =>
      rw [Utf8.ofChars, List.flatMap_cons, List.flatMap_append, ← Utf8.ofChars]
      by_cases hc : ∃ b ∈ Utf8.encode c, Utf8.isSingle b = true
      · obtain ⟨b, hmem, hb⟩ := hc
        rw [Utf8.encode_eq_of_mem hb hmem, List.flatMap_singleton,
          isReadable_singles fun x hx => (escapeOf_single hb x hx).1,
          isReadable_singles (List.forall_mem_singleton.2 hb), ih]
      · rw [escaped_of_not_single fun b hb => Bool.eq_false_iff.2 fun h => hc ⟨b, hb, h⟩,
          isReadable_encode_append, isReadable_encode_append, ih]
  · have hescaped : Utf8.isValid (s.flatMap escapeOf) = false :=
      Bool.eq_false_iff.2 fun h => hs (isValid_of_escaped h)
    rw [isReadable, isReadable, hescaped, Bool.eq_false_iff.2 hs]
    rfl

theorem isReadable_quoted (s : Text) : isReadable (Manifest.quoted s) = isReadable s := by
  have hquote : ∀ b ∈ Text.ofString "\"", Utf8.isSingle b = true := List.forall_mem_singleton.2 rfl
  have hstop : ∀ b ∈ (Text.ofString "\"").head?, Utf8.isSingle b = true := by
    rintro _ ⟨⟩
    rfl
  have hend : isReadable (Text.ofString "\"") = true := isReadable_singles hquote []
  rw [Manifest.quoted, isReadable_append hstop, isReadable_singles hquote, isReadable_escaped, hend,
    Bool.and_true]

/-! ## Lines -/

/-- A statement on a line and what stands behind it before the next one. -/
structure Line where
  text : Text
  statement : Statement
  gap : Text

namespace Line

/-- The header of a table. -/
def header (k gap : Text) : Line := ⟨"[" ++ k ++ "]", .header [k], gap⟩

/-- A key and a text. -/
def ofText (k s gap : Text) : Line := ⟨k ++ " = " ++ Manifest.quoted s, .pair [k] (.text s), gap⟩

/-- A key and a truth value. -/
def ofTruth (k : Text) (b : Bool) (gap : Text) : Line :=
  ⟨k ++ " = " ++ Manifest.shownTruth b, .pair [k] (.truth b), gap⟩

end Line

/-- Lines one after the other. -/
def laid (ls : List Line) : Text := ls.flatMap fun l => l.text ++ l.gap

/-- Blanks and line feeds. -/
def IsGap (gap : Text) : Prop := ∀ b ∈ gap, isBlank b = true ∨ b = 0x0A

instance (gap : Text) : Decidable (IsGap gap) :=
  inferInstanceAs (Decidable (∀ b ∈ gap, isBlank b = true ∨ b = 0x0A))

/-- No control code and no carriage return. -/
def IsTidy (s : Text) : Prop := ∀ b ∈ s, isControl b = false ∧ b ≠ 0x0D

/-- A line that can be read: it has its statement, starts with it, and ends behind it. -/
structure Line.Sound (l : Line) : Prop where
  reads : Reads l.text l.statement
  starts : ∃ b r, l.text = b :: r ∧ Utf8.isSingle b = true ∧ ∀ t, afterLines (b :: t) = b :: t
  tidy : IsTidy l.text
  ends : l.gap.head? = some 0x0A
  gap : IsGap l.gap

theorem IsGap.afterLines {gap : Text} (h : IsGap gap) (r : Text) :
    Toml.afterLines (gap ++ r) = Toml.afterLines r := by
  induction gap with
  | nil => rfl
  | cons b gap ih =>
    obtain ⟨hb, hgap⟩ := List.forall_mem_cons.1 h
    rw [Toml.afterLines, List.cons_append, afterLinesFrom]
    split
    · exact ih hgap
    · rename_i hbreak
      have hblank : isBlank b = true := hb.resolve_right fun hline => hbreak (hline ▸ rfl)
      rw [if_pos (by rw [hblank, Bool.false_or])]
      exact ih hgap

theorem laid_cons (l : Line) (ls : List Line) : laid (l :: ls) = l.text ++ (l.gap ++ laid ls) := by
  rw [laid, List.flatMap_cons, List.append_assoc]
  rfl

/-- **Lines are read as their statements.** -/
theorem statements?_laid {ls : List Line} (h : ∀ l ∈ ls, l.Sound) {gap : Text} (hgap : IsGap gap)
    {n : Nat} (hn : ls.length < n) :
    statements? n (gap ++ laid ls) = some (ls.map (·.statement)) := by
  induction ls generalizing gap n with
  | nil =>
    obtain ⟨k, rfl⟩ := Nat.exists_eq_add_one_of_ne_zero (Nat.ne_zero_of_lt hn)
    rw [statements?, hgap.afterLines]
    rfl
  | cons l ls ih =>
    obtain ⟨k, rfl⟩ := Nat.exists_eq_add_one_of_ne_zero (Nat.ne_zero_of_lt hn)
    obtain ⟨hl, hls⟩ := List.forall_mem_cons.1 h
    have hhead : (l.gap ++ laid ls).head? = some 0x0A := by
      rw [List.head?_append, hl.ends]
      rfl
    have hends : endsLine (l.gap ++ laid ls) = true := by
      obtain ⟨r, hr⟩ := List.head?_eq_some_iff.1 hhead
      rw [hr]
      rfl
    have hread := hl.reads _ hhead
    have hrest := ih hls hl.gap (n := k) (by rw [List.length_cons] at hn; omega)
    obtain ⟨b, r, hb, -, hstart⟩ := hl.starts
    rw [statements?, hgap.afterLines, laid_cons, hb, List.cons_append, hstart]
    dsimp only
    rw [← List.cons_append, ← hb, hread]
    dsimp only
    rw [if_pos hends, hrest, Option.map_some, List.map_cons]

namespace Bare

variable {k gap : Text}

theorem single (hk : Bare k) : ∀ b ∈ k, Utf8.isSingle b = true := fun b hb =>
  (isBare_facts b (hk.bare b hb)).2.2.2.2.2.1

theorem tidy (hk : Bare k) : IsTidy k := by
  intro b hb
  obtain ⟨-, -, -, hbreak, -, -, hcontrol⟩ := isBare_facts b (hk.bare b hb)
  refine ⟨hcontrol, ?_⟩
  rintro rfl
  cases hbreak

end Bare

/-- What stands between a key and its value, and the values that are no texts. -/
theorem literal_facts : ∀ s ∈ [Text.ofString " = ", "true", "false"],
    ∀ b ∈ s, Utf8.isSingle b = true ∧ isControl b = false ∧ b ≠ 0x0D := by
  decide +kernel

theorem shownTruth_facts (t : Bool) : ∀ b ∈ Manifest.shownTruth t,
    Utf8.isSingle b = true ∧ isControl b = false ∧ b ≠ 0x0D := by
  cases t with
  | true => exact literal_facts "true" (by simp)
  | false => exact literal_facts "false" (by simp)

theorem IsTidy.append {s t : Text} (hs : IsTidy s) (ht : IsTidy t) : IsTidy (s ++ t) :=
  List.forall_mem_append.2 ⟨hs, ht⟩

theorem tidy_quoted (s : Text) : IsTidy (Manifest.quoted s) := by
  have hquote : IsTidy "\"" := List.forall_mem_singleton.2 (by decide)
  refine (hquote.append fun x hx => ?_).append hquote
  obtain ⟨b, -, hx⟩ := List.mem_flatMap.1 hx
  cases hb : Utf8.isSingle b with
  | true => exact (escapeOf_single hb x hx).2
  | false =>
    obtain ⟨hescape, hcontrol, hreturn⟩ := escapeOf_not_single hb
    rw [hescape, List.mem_singleton] at hx
    exact hx ▸ ⟨hcontrol, hreturn⟩

namespace Bare

variable {k gap : Text}

theorem sound_header (hk : Bare k) (hends : gap.head? = some 0x0A) (hgap : IsGap gap) :
    (Line.header k gap).Sound where
  reads := hk.reads_header
  starts := ⟨Text.byte '[', k ++ "]", rfl, rfl, fun _ => rfl⟩
  tidy :=
    have hbracket (c : Char) (hc : isControl (Text.byte c) = false ∧ Text.byte c ≠ 0x0D) :
        IsTidy [Text.byte c] := List.forall_mem_singleton.2 hc
    ((hbracket '[' (by decide)).append hk.tidy).append (hbracket ']' (by decide))
  ends := hends
  gap := hgap

/-- A line with a key and a value. -/
theorem sound_pair (hk : Bare k) {w : Text} {v : Value} (hreads : Reads (k ++ " = " ++ w) (.pair [k] v))
    (hw : IsTidy w) (hends : gap.head? = some 0x0A) (hgap : IsGap gap) :
    Line.Sound ⟨k ++ " = " ++ w, .pair [k] v, gap⟩ where
  reads := hreads
  starts := by
    obtain ⟨c, t, rfl⟩ := List.exists_cons_of_ne_nil hk.ne_nil
    obtain ⟨hblank, -, -, hbreak, hcomment, hsingle, -⟩ :=
      isBare_facts c (hk.bare c List.mem_cons_self)
    refine ⟨c, t ++ " = " ++ w, rfl, hsingle, fun r => ?_⟩
    rw [afterLines, afterLinesFrom, hbreak, hblank, Bool.false_or, if_neg Bool.false_ne_true,
      if_neg Bool.false_ne_true, if_neg (by rwa [beq_iff_eq])]
  tidy :=
    have hsign : IsTidy " = " := fun b hb => (literal_facts _ List.mem_cons_self b hb).2
    (hk.tidy.append hsign).append hw
  ends := hends
  gap := hgap

theorem sound_text (hk : Bare k) (s : Text) (hends : gap.head? = some 0x0A) (hgap : IsGap gap) :
    (Line.ofText k s gap).Sound :=
  hk.sound_pair (hk.reads_text s) (tidy_quoted s) hends hgap

theorem sound_truth (hk : Bare k) (b : Bool) (hends : gap.head? = some 0x0A) (hgap : IsGap gap) :
    (Line.ofTruth k b gap).Sound :=
  hk.sound_pair (hk.reads_truth b) (fun x hx => (shownTruth_facts b x hx).2) hends hgap

theorem isReadable_header (hk : Bare k) : isReadable (Line.header k gap).text = true := by
  have hsingle : ∀ b ∈ (Line.header k gap).text, Utf8.isSingle b = true :=
    List.forall_mem_append.2 ⟨List.forall_mem_append.2 ⟨List.forall_mem_singleton.2 rfl, hk.single⟩,
      List.forall_mem_singleton.2 rfl⟩
  have h := isReadable_singles hsingle []
  rwa [List.append_nil] at h

/-- Only the value decides whether a line may be read. -/
theorem isReadable_pair (hk : Bare k) (w : Text) : isReadable (k ++ " = " ++ w) = isReadable w := by
  have hsign : ∀ b ∈ Text.ofString " = ", Utf8.isSingle b = true := fun b hb =>
    (literal_facts _ List.mem_cons_self b hb).1
  exact isReadable_singles (List.forall_mem_append.2 ⟨hk.single, hsign⟩) w

theorem isReadable_text (hk : Bare k) (s : Text) :
    isReadable (Line.ofText k s gap).text = isReadable s :=
  (hk.isReadable_pair _).trans (isReadable_quoted s)

theorem isReadable_truth (hk : Bare k) (b : Bool) :
    isReadable (Line.ofTruth k b gap).text = true := by
  have h := isReadable_singles (fun x hx => (shownTruth_facts b x hx).1) []
  rw [List.append_nil] at h
  exact (hk.isReadable_pair _).trans h

end Bare

theorem gap_facts {b : UInt8} (h : isBlank b = true ∨ b = 0x0A) :
    Utf8.isSingle b = true ∧ isControl b = false ∧ b ≠ 0x0D := by
  rw [isBlank, Bool.or_eq_true, beq_iff_eq, beq_iff_eq] at h
  rcases h with (rfl | rfl) | rfl <;> decide

/-- **Lines may be read if each of them may.** -/
theorem isPlainText_laid {ls : List Line} (h : ∀ l ∈ ls, l.Sound) :
    isPlainText (laid ls) = ls.all (isReadable ·.text) := by
  have hgap {gap : Text} (hgap : IsGap gap) :
      (∀ b ∈ gap, Utf8.isSingle b = true) ∧ IsTidy gap :=
    ⟨fun b hb => (gap_facts (hgap b hb)).1, fun b hb => (gap_facts (hgap b hb)).2⟩
  have htidy : IsTidy (laid ls) := by
    intro b hb
    obtain ⟨l, hl, hb⟩ := List.mem_flatMap.1 hb
    exact (h l hl).tidy.append (hgap (h l hl).gap).2 b hb
  have hcontrol : (laid ls).any isControl = false :=
    List.any_eq_false.2 fun b hb => by rw [(htidy b hb).1]; exact Bool.false_ne_true
  rw [isPlainText_eq, hcontrol, returnsPaired_of_not_mem fun hb => (htidy _ hb).2 rfl]
  simp only [Bool.not_false, Bool.and_true]
  clear htidy hcontrol
  induction ls with
  | nil => rfl
  | cons l ls ih =>
    obtain ⟨hl, hls⟩ := List.forall_mem_cons.1 h
    have hnext : ∀ b ∈ (l.gap ++ laid ls).head?, Utf8.isSingle b = true := by
      rw [List.head?_append, hl.ends]
      rintro _ ⟨⟩
      rfl
    rw [laid_cons, isReadable_append hnext, isReadable_singles (hgap hl.gap).1, ih hls,
      List.all_cons]

end Toml

namespace Manifest

open Toml (Line)

/-- The lines of a manifest. -/
def lines (m : Manifest) : List Line :=
  [.header "package" "\n  ", .ofText "name" m.name "\n\n", .header "build" "\n  ",
   .ofText "src" m.src "\n  ", .ofText "out" m.out "\n  ", .ofText "separator" m.separator "\n  ",
   .ofTruth "latinize" m.latinize "\n  ", .ofTruth "banner" m.banner "\n"]

theorem render_eq_laid (m : Manifest) : m.render = Toml.laid m.lines := by
  simp only [render, Toml.laid, lines, Line.header, Line.ofText, Line.ofTruth, List.flatMap_cons,
    List.flatMap_nil, List.append_assoc]
  rfl

/-- The texts of a manifest may be read. -/
def isReadable (m : Manifest) : Bool :=
  Toml.isReadable m.name && Toml.isReadable m.src && Toml.isReadable m.out &&
    Toml.isReadable m.separator

theorem bare_keys : ∀ k ∈ [Text.ofString "package", "name", "build", "src", "out", "separator",
    "latinize", "banner"], Toml.Bare k := by
  have h : ∀ k ∈ [Text.ofString "package", "name", "build", "src", "out", "separator", "latinize",
      "banner"], k ≠ [] ∧ ∀ b ∈ k, Toml.isBare b = true := by
    decide +kernel
  exact fun k hk => ⟨(h k hk).1, (h k hk).2⟩

theorem sound_lines (m : Manifest) : ∀ l ∈ m.lines, l.Sound := by
  have hkeys := bare_keys
  simp only [List.forall_mem_cons] at hkeys
  obtain ⟨hpackage, hname, hbuild, hsrc, hout, hseparator, hlatinize, hbanner, -⟩ := hkeys
  simp only [lines, List.forall_mem_cons]
  exact ⟨hpackage.sound_header rfl (by decide +kernel), hname.sound_text _ rfl (by decide +kernel),
    hbuild.sound_header rfl (by decide +kernel), hsrc.sound_text _ rfl (by decide +kernel),
    hout.sound_text _ rfl (by decide +kernel), hseparator.sound_text _ rfl (by decide +kernel),
    hlatinize.sound_truth _ rfl (by decide +kernel), hbanner.sound_truth _ rfl (by decide +kernel),
    List.forall_mem_nil _⟩

theorem all_isReadable_lines (m : Manifest) : m.lines.all (Toml.isReadable ·.text) = m.isReadable := by
  have hkeys := bare_keys
  simp only [List.forall_mem_cons] at hkeys
  obtain ⟨hpackage, hname, hbuild, hsrc, hout, hseparator, hlatinize, hbanner, -⟩ := hkeys
  simp only [lines, List.all_cons, List.all_nil, hpackage.isReadable_header, hname.isReadable_text,
    hbuild.isReadable_header, hsrc.isReadable_text, hout.isReadable_text,
    hseparator.isReadable_text, hlatinize.isReadable_truth, hbanner.isReadable_truth, isReadable,
    Bool.true_and, Bool.and_true, Bool.and_assoc]

theorem read?_render (m : Manifest) :
    Toml.read? m.render = if m.isReadable then some (m.lines.map (·.statement)) else none := by
  have hmark : Toml.withoutMark m.render = m.render := rfl
  have hlines : m.lines.length < m.render.length + 1 := by
    have height : m.lines.length = 8 := rfl
    have hfront : (Text.ofString "[package]\n  name = ").length = 19 := by cbv
    simp only [render, List.length_append]
    omega
  rw [Toml.read?, hmark, render_eq_laid, Toml.isPlainText_laid m.sound_lines, all_isReadable_lines]
  split
  next =>
    have hgap : Toml.IsGap [] := List.forall_mem_nil _
    have h := Toml.statements?_laid m.sound_lines hgap hlines
    rwa [List.nil_append, render_eq_laid] at h
  next => rfl

/-- What the lines of a manifest define. -/
def outline (m : Manifest) : Toml.Outline :=
  { nodes := [(["package"], .table), (["package", "name"], .text m.name), (["build"], .table),
      (["build", "src"], .text m.src), (["build", "out"], .text m.out),
      (["build", "separator"], .text m.separator), (["build", "latinize"], .truth m.latinize),
      (["build", "banner"], .truth m.banner)]
    order := [["package"], ["package", "name"], ["build"], ["build", "src"], ["build", "out"],
      ["build", "separator"], ["build", "latinize"], ["build", "banner"]] }

theorem ofStatements?_lines (m : Manifest) :
    Toml.Outline.ofStatements? (m.lines.map (·.statement)) = some m.outline := by
  cbv

/-- A manifest as it is read: blanks around the name and the sources do not count, and neither
does a blank place for scripts. -/
def reread (m : Manifest) (root : Text) : Manifest :=
  { m with
    name := Text.trim m.name, src := Text.trim m.src
    out := if (Text.trim m.out).isEmpty then usualOut else m.out
    root }

theorem ofOutline_outline (m : Manifest) (root : Text) :
    ofOutline m.outline root =
      if (Text.trim m.name).isEmpty then .error .noName
      else if (Text.trim m.src).isEmpty then .error .noSource
      else .ok (m.reread root) := by
  have htyped : isTyped m.outline = true := by cbv
  have hpackage : (m.outline.find? ["package"]).isNone = false := by cbv
  have hname : textOf m.outline "package" "name" = m.name := by cbv
  have hsrc : textOf m.outline "build" "src" = m.src := by cbv
  have hout : textOf m.outline "build" "out" = m.out := by cbv
  have hknown : m.outline.order.filter (!isKnown ·) = [] := by cbv
  have hseparator : textOf m.outline "build" "separator" = m.separator := by cbv
  have hthere : (m.outline.find? ["build", "separator"]).isSome = true := by cbv
  have hlatinize : truthOf m.outline "build" "latinize" false = m.latinize := by cbv
  have hbanner : truthOf m.outline "build" "banner" true = m.banner := by cbv
  rw [ofOutline, htyped, hpackage, hname, hsrc, hout, hknown, hseparator, hthere, hlatinize, hbanner]
  rfl

/-- **A manifest is read back** if its texts may be read and it has a name and sources. -/
theorem ofText_render (m : Manifest) (root : Text) :
    ofText root m.render =
      if m.isReadable then
        if (Text.trim m.name).isEmpty then .error .noName
        else if (Text.trim m.src).isEmpty then .error .noSource
        else .ok (m.reread root)
      else .error .malformed := by
  rw [ofText, read?_render]
  cases m.isReadable with
  | true => rw [if_pos rfl, Option.bind_some, ofStatements?_lines, if_pos rfl, ← ofOutline_outline]
  | false => rfl

end Manifest
end Tarjuman
