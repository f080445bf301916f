/-
# Which keyword stands in a text

A keyword is looked for among those with its leading letter, one after the other.  The
order does not matter: its letters, and what ends it, leave room for one keyword only
(`Keyword.eq_of_stands`), so any order of the candidates finds the same
(`Keyword.findIn_perm`).  That a keyword stands in a text is said here on the text, letters
and delimiter, without trying (`Keyword.StandsBefore`); a word is read as the keyword that
stands there and otherwise as an identifier from the same place on (`Cursor.fetch_word`).
-/

import Mathlib.Data.List.Basic
import Tarjuman.Proofs.Characters
import Tarjuman.Proofs.TokenLanguages

namespace Tarjuman
namespace Keyword

/-- The text `s` in front of `rest` is the keyword: its leading letter with all that is
registered behind it, a space at the end included; or without that space, where a line feed, a
tab, a carriage return or the end of the text stands in its place. -/
inductive StandsBefore (k : Keyword) (rest : Text) : Text → Prop where
  | whole : StandsBefore k rest (Utf8.encode k.lead ++ k.suffix)
  | stopped {letters : Text} (suffix_eq : k.suffix = letters ++ [0x20])
      (stop : ∀ b ∈ rest.head?, b = 0x0A ∨ b = 0x09 ∨ b = 0x0D) :
      StandsBefore k rest (Utf8.encode k.lead ++ letters)

/-- The keyword is at the head of the text. -/
def Stands (k : Keyword) (text : Text) : Prop :=
  ∃ s rest, text = s ++ rest ∧ k.StandsBefore rest s

/-! ## What is counted -/

/-- A delimiter adds nothing to the keyword, unless it is a space. -/
theorem delimiterSize?_eq_some_iff {rest : Text} {d : Nat} : delimiterSize? rest = some d ↔
    (d = 0 ∧ ∀ b ∈ rest.head?, b = 0x0A ∨ b = 0x09 ∨ b = 0x0D) ∨
      (d = 1 ∧ rest.head? = some 0x20) := by
  cases rest with
  | nil => simp [delimiterSize?, eq_comm]
  | cons b r =>
    have hspace : isDelimiter 0x20 = false := rfl
    have hdelimiter : isDelimiter b = true ↔ b = 0x0A ∨ b = 0x09 ∨ b = 0x0D := by
      simp only [isDelimiter, Bool.or_eq_true, beq_iff_eq, or_assoc]
    simp only [List.head?_cons, Option.mem_def, Option.some.injEq, forall_eq', ← hdelimiter,
      delimiterSize?]
    by_cases hb : isDelimiter b = true
    · have hne : b ≠ 0x20 := by
        rintro rfl
        rw [hspace] at hb
        cases hb
      simp [hb, hne, eq_comm]
    · by_cases hsp : b = 0x20
      · simp [hsp, hspace, eq_comm]
      · simp [hb, hsp]

theorem exists_of_size? {k : Keyword} {text : Text} {n : Nat} (h : k.size? text = some n) :
    ∃ rest, text = k.spelling ++ rest := by
  rw [size?] at h
  split at h
  · cases h
  · rename_i rest hrest
    exact ⟨rest, Text.isPrefixOf?_eq_some_iff.1 hrest⟩

theorem size?_spelling_append (k : Keyword) (rest : Text) : k.size? (k.spelling ++ rest) =
    if k.delimited then (delimiterSize? rest).map (k.spelling.length + ·)
    else some k.spelling.length := by
  rw [size?, Text.isPrefixOf?_eq_some_iff.2 rfl]

/-- The letters of a keyword that needs no delimiter do not end in a space. -/
theorem suffix_ne_of_not_delimited {k : Keyword} (hk : k ∈ table) (h : k.delimited = false)
    (letters : Text) : k.suffix ≠ letters ++ [0x20] := by
  have hlast : ∀ k ∈ table, k.delimited = false → k.suffix.getLast? ≠ some 0x20 := by decide
  intro heq
  refine hlast k hk h ?_
  rw [heq, List.getLast?_concat]

theorem encode_append_suffix (k : Keyword) :
    Utf8.encode k.lead ++ k.suffix = k.spelling ++ if k.delimited then [0x20] else [] := by
  rw [suffix, spelling, List.append_assoc]

/-- **What is counted as a keyword is one, and every keyword is counted.** -/
theorem size?_eq_some_iff {k : Keyword} (hk : k ∈ table) {text : Text} {n : Nat} :
    k.size? text = some n ↔ ∃ s rest, text = s ++ rest ∧ s.length = n ∧ k.StandsBefore rest s := by
  have hwhole := k.encode_append_suffix
  constructor
  · intro h
    obtain ⟨rest, rfl⟩ := exists_of_size? h
    rw [size?_spelling_append] at h
    split at h
    · rename_i hdelimited
      rw [if_pos hdelimited] at hwhole
      obtain ⟨d, hd, rfl⟩ := Option.map_eq_some_iff.1 h
      rcases delimiterSize?_eq_some_iff.1 hd with ⟨rfl, hstop⟩ | ⟨rfl, hspace⟩
      · refine ⟨k.spelling, rest, rfl, rfl, .stopped ?_ hstop⟩
        rw [suffix, if_pos hdelimited]
      · obtain ⟨r, rfl⟩ := List.head?_eq_some_iff.1 hspace
        refine ⟨k.spelling ++ [0x20], r, ?_, List.length_append, hwhole ▸ .whole⟩
        rw [List.append_assoc, List.singleton_append]
    · rename_i hdelimited
      rw [if_neg hdelimited, List.append_nil] at hwhole
      obtain rfl := Option.some.inj h
      exact ⟨k.spelling, rest, rfl, rfl, hwhole ▸ .whole⟩
  · rintro ⟨s, rest, rfl, rfl, hstands⟩
    cases hstands with
    | whole =>
      rw [hwhole, List.append_assoc, size?_spelling_append]
      cases k.delimited with
      | false => rw [if_neg Bool.false_ne_true, if_neg Bool.false_ne_true, List.append_nil]
      | true =>
        have hspace : delimiterSize? ([0x20] ++ rest) = some 1 :=
          delimiterSize?_eq_some_iff.2 (.inr ⟨rfl, rfl⟩)
        rw [if_pos rfl, if_pos rfl, hspace, List.length_append]
        rfl
    | @stopped letters hsuffix hstop =>
      cases hdelimited : k.delimited with
      | false => exact absurd hsuffix (suffix_ne_of_not_delimited hk hdelimited letters)
      | true =>
        rw [suffix, if_pos hdelimited] at hsuffix
        obtain rfl := List.append_cancel_right hsuffix
        have hnone : delimiterSize? rest = some 0 :=
          delimiterSize?_eq_some_iff.2 (.inl ⟨rfl, hstop⟩)
        rw [← spelling, size?_spelling_append, if_pos hdelimited, hnone]
        rfl

theorem isSome_size?_iff {k : Keyword} (hk : k ∈ table) {text : Text} :
    (k.size? text).isSome = true ↔ k.Stands text := by
  rw [Option.isSome_iff_exists]
  constructor
  · rintro ⟨n, hn⟩
    obtain ⟨s, rest, htext, -, hstands⟩ := (size?_eq_some_iff hk).1 hn
    exact ⟨s, rest, htext, hstands⟩
  · rintro ⟨s, rest, htext, hstands⟩
    exact ⟨_, (size?_eq_some_iff hk).2 ⟨s, rest, htext, rfl, hstands⟩⟩

/-! ## Room for one -/

/-- Where the letters of a keyword go on to another one, what follows them is no delimiter. -/
theorem delimiterSize?_of_prefix : ∀ k ∈ table, ∀ k' ∈ table, k ≠ k' → k.spelling <+: k'.spelling →
    k.delimited = true ∧
      delimiterSize? (k'.spelling.drop k.spelling.length) = none := by
  have hall : ∀ k ∈ table, ∀ k' ∈ table, k = k' ∨ k.spelling.isPrefixOf k'.spelling = false ∨
      (k.delimited = true ∧ delimiterSize? (k'.spelling.drop k.spelling.length) = none) := by
    decide
  intro k hk k' hk' hne hpre
  rcases hall k hk k' hk' with rfl | hnot | hnone
  · exact absurd rfl hne
  · rw [List.isPrefixOf_iff_prefix.2 hpre] at hnot
    cases hnot
  · exact hnone

/-- What starts with no delimiter still does with more behind it. -/
theorem delimiterSize?_append_eq_none {s : Text} (h : delimiterSize? s = none) (r : Text) :
    delimiterSize? (s ++ r) = none := by
  cases s with
  | nil => cases h
  | cons b s => exact h

/-- A keyword does not stand where a longer one does. -/
theorem size?_eq_none_of_prefix {k k' : Keyword} (hk : k ∈ table) (hk' : k' ∈ table)
    (hne : k ≠ k') (hpre : k.spelling <+: k'.spelling) (rest : Text) :
    k.size? (k'.spelling ++ rest) = none := by
  obtain ⟨hdelimited, hnone⟩ := delimiterSize?_of_prefix k hk k' hk' hne hpre
  obtain ⟨more, hmore⟩ := hpre
  rw [← hmore, List.drop_left] at hnone
  rw [← hmore, List.append_assoc, size?_spelling_append, if_pos hdelimited,
    delimiterSize?_append_eq_none hnone]
  rfl

/-- **There is room for one keyword.** -/
theorem eq_of_stands {k k' : Keyword} (hk : k ∈ table) (hk' : k' ∈ table) {text : Text}
    (h : k.Stands text) (h' : k'.Stands text) : k = k' := by
  by_contra hne
  obtain ⟨n, hn⟩ := Option.isSome_iff_exists.1 ((isSome_size?_iff hk).2 h)
  obtain ⟨n', hn'⟩ := Option.isSome_iff_exists.1 ((isSome_size?_iff hk').2 h')
  obtain ⟨rest, hrest⟩ := exists_of_size? hn
  obtain ⟨rest', hrest'⟩ := exists_of_size? hn'
  rcases List.prefix_or_prefix_of_prefix ⟨rest, hrest.symm⟩ ⟨rest', hrest'.symm⟩ with hpre | hpre
  · rw [hrest', size?_eq_none_of_prefix hk hk' hne hpre] at hn
    cases hn
  · rw [hrest, size?_eq_none_of_prefix hk' hk (Ne.symm hne) hpre] at hn'
    cases hn'

/-- A keyword stands only where its leading letter does. -/
theorem head?_of_stands {k : Keyword} {text : Text} (h : k.Stands text) :
    Utf8.head? text = some (.char k.lead) := by
  obtain ⟨s, rest, rfl, hstands⟩ := h
  cases hstands with
  | whole => rw [List.append_assoc]; exact Utf8.head?_encode_append ..
  | stopped => rw [List.append_assoc]; exact Utf8.head?_encode_append ..

/-! ## Any order -/

/-- The first of the candidates that stands at the head of the text, as its kind and its number
of bytes. -/
def findIn (candidates : List Keyword) (text : Text) : Option (Kind × Nat) :=
  candidates.findSome? fun k => (k.size? text).map (k.kind, ·)

theorem mem_table_of_mem_withLead {k : Keyword} {lead : Char} (h : k ∈ withLead lead) :
    k ∈ table := (List.mem_filter.1 h).1

/-- Keywords with one leading letter differ in kind. -/
theorem eq_of_kind {k k' : Keyword} {lead : Char} (hk : k ∈ withLead lead)
    (hk' : k' ∈ withLead lead) (h : k.kind = k'.kind) : k = k' := by
  have hall : ∀ k ∈ table, ∀ k' ∈ table, k.lead = k'.lead → k.kind = k'.kind → k = k' := by
    decide
  obtain ⟨hknown, hlead⟩ := List.mem_filter.1 hk
  obtain ⟨hknown', hlead'⟩ := List.mem_filter.1 hk'
  exact hall k hknown k' hknown' ((beq_iff_eq.1 hlead).trans (beq_iff_eq.1 hlead').symm) h

theorem kind_ne_ident : ∀ k ∈ table, k.kind ≠ .ident := by decide

/-- Whatever their order, the candidates find the one that stands there. -/
theorem findIn_eq_some_iff {candidates : List Keyword} (hknown : ∀ k ∈ candidates, k ∈ table)
    {text : Text} {kind : Kind} {n : Nat} : findIn candidates text = some (kind, n) ↔
      ∃ k ∈ candidates, k.kind = kind ∧ k.size? text = some n := by
  have hfound {found : Kind × Nat} (h : findIn candidates text = some found) :
      ∃ k ∈ candidates, k.kind = found.1 ∧ k.size? text = some found.2 := by
    obtain ⟨k, hk, h⟩ := List.exists_of_findSome?_eq_some h
    obtain ⟨m, hm, rfl⟩ := Option.map_eq_some_iff.1 h
    exact ⟨k, hk, rfl, hm⟩
  refine ⟨hfound, ?_⟩
  rintro ⟨k, hk, rfl, hn⟩
  have hsome : (findIn candidates text).isSome = true :=
    List.findSome?_isSome_iff.2 ⟨k, hk, by rw [hn]; rfl⟩
  obtain ⟨found, heq⟩ := Option.isSome_iff_exists.1 hsome
  obtain ⟨k', hk', hkind, hn'⟩ := hfound heq
  have hsame : k' = k := eq_of_stands (hknown k' hk') (hknown k hk)
    ((isSome_size?_iff (hknown k' hk')).1 (by rw [hn']; rfl))
    ((isSome_size?_iff (hknown k hk)).1 (by rw [hn]; rfl))
  subst hsame
  have hsize : found.2 = n := Option.some.inj (hn'.symm.trans hn)
  rw [heq]
  exact congrArg some (Prod.ext hkind.symm hsize)

/-- **Any order of the keywords with the leading letter finds what the whole table does.** -/
theorem findIn_perm {item : Utf8.Item} {text : Text} (hitem : Utf8.head? text = some item)
    {order : List Keyword} (h : order.Perm (withLead item.toChar)) :
    findIn order text = find? text := by
  have hknown : ∀ k ∈ order, k ∈ table := fun k hk => mem_table_of_mem_withLead (h.mem_iff.1 hk)
  refine Option.ext fun found => ?_
  rw [show find? text = findIn table text from rfl]
  rw [findIn_eq_some_iff hknown, findIn_eq_some_iff fun _ hk => hk]
  constructor
  · rintro ⟨k, hk, hfound⟩
    exact ⟨k, hknown k hk, hfound⟩
  · rintro ⟨k, hk, hkind, hn⟩
    refine ⟨k, h.mem_iff.2 (List.mem_filter.2 ⟨hk, ?_⟩), hkind, hn⟩
    have hhead := head?_of_stands ((isSome_size?_iff hk).1 (by rw [hn]; rfl))
    rw [hitem] at hhead
    rw [Option.some.inj hhead]
    exact beq_iff_eq.2 rfl

end Keyword

/-! ## Reading a word -/

namespace Lexeme

/-- Where no digit, operator, string or raw literal starts, a word does. -/
theorem read_eq_word {text : Text} {item : Utf8.Item} (hitem : Utf8.head? text = some item)
    (hdigit : isDigit item.toChar = false) (hopener : item.toChar ∉ openers) :
    read text = word text := by
  have hstarts {c : Char} (r : Text) (h : text = Utf8.encode c ++ r) : item.toChar = c := by
    rw [h, Utf8.head?_encode_append] at hitem
    rw [← Option.some.inj hitem]
    rfl
  have hdigits : digitsSize text = 0 := by
    by_contra hne
    obtain ⟨cs, hcs, hall, htake⟩ := digits_take hne
    obtain ⟨c, cs, rfl⟩ := List.exists_cons_of_ne_nil hcs
    have hsplit := List.take_append_drop (digitsSize text) text
    rw [htake, Utf8.ofChars, List.flatMap_cons, List.append_assoc] at hsplit
    rw [hstarts _ hsplit.symm, hall c List.mem_cons_self] at hdigit
    cases hdigit
  have hraw : Text.after? text "-\x7b" = none := by
    refine Option.eq_none_iff_forall_not_mem.2 fun r hr => hopener ?_
    have hsplit := Text.after?_eq_some_iff.1 hr
    rw [hstarts (c := '-') ([0x7B] ++ r) hsplit]
    decide
  have hstring : Text.after? text "\"" = none := by
    refine Option.eq_none_iff_forall_not_mem.2 fun r hr => hopener ?_
    rw [hstarts (c := '"') r (Text.after?_eq_some_iff.1 hr)]
    decide
  have hoperator : operator? text = none := by
    have hall : operators.all fun o =>
        openers.any fun c => (Utf8.encode c).isPrefixOf (Text.ofString o.1) := by decide
    refine List.findSome?_eq_none_iff.2 fun o ho => ?_
    dsimp only
    refine if_neg fun hpre => hopener ?_
    obtain ⟨c, hc, hfirst⟩ := List.any_eq_true.1 (List.all_eq_true.1 hall o ho)
    obtain ⟨r, hr⟩ :=
      (List.isPrefixOf_iff_prefix.1 hfirst).trans (List.isPrefixOf_iff_prefix.1 hpre)
    rw [hstarts r hr.symm]
    exact hc
  rw [read, if_neg (not_not.2 hdigits), hraw, hstring, hoperator]

/-- The word at the head of a text if keywords are tried in the given order. -/
def wordIn (order : List Keyword) (s : Text) : Lexeme :=
  ((Keyword.findIn order s).map fun found => token found.1 found.2).getD
    (token .ident (identSize s))

theorem word_eq_wordIn {order : List Keyword} {s : Text}
    (h : Keyword.findIn order s = Keyword.find? s) : word s = wordIn order s := by
  rw [wordIn, word, h]
  cases Keyword.find? s <;> rfl

end Lexeme

namespace Cursor

/-- How a word that starts at a cursor is fetched, `candidates` being the keywords with its
first letter. -/
structure FetchesWord (start : Cursor) (candidates : List Keyword) (f : Fetch) : Prop where
  unique : ∀ k ∈ candidates, ∀ k' ∈ candidates,
    k.Stands start.rest → k'.Stands start.rest → k = k'
  anyOrder : ∀ order : List Keyword, order.Perm candidates →
    Lexeme.read start.rest = Lexeme.wordIn order start.rest
  keyword_iff : ∀ k ∈ candidates, f.token.kind = k.kind ↔ k.Stands start.rest
  /-- A keyword covers what belongs to it, and reading goes on behind that. -/
  keyword : ∀ k ∈ candidates, ∀ s rest, start.rest = s ++ rest → k.StandsBefore rest s →
    f = { token := ⟨k.kind, start.line, start.span 0 s.length⟩, cursor := start.skip s.length }
  /-- An identifier covers everything from the start up to the first separator. -/
  identifier : (∀ k ∈ candidates, ¬ k.Stands start.rest) → ∃ s rest, start.rest = s ++ rest ∧
    Lexeme.Identifier s rest ∧ f.token = ⟨.ident, start.line, start.span 0 s.length⟩ ∧
    f.cursor = start.skip s.length

theorem fetchHere_of_find? {c : Cursor} (hrest : c.rest ≠ [])
    (hread : Lexeme.read c.rest = Lexeme.word c.rest) {kind : Kind} {n : Nat}
    (hfind : Keyword.find? c.rest = some (kind, n)) :
    c.fetchHere = { token := ⟨kind, c.line, c.span 0 n⟩, cursor := c.skip n } := by
  have hident : kind ≠ .ident := by
    rintro rfl
    cases (Keyword.find?_spec hfind).1
  rw [fetchHere, if_neg hrest, hread, Lexeme.word, hfind]
  dsimp only
  rw [take, if_neg fun h => hident h.1]

/-- Where no keyword stands there is an identifier. -/
theorem fetchHere_of_find?_eq_none {c : Cursor} (hrest : c.rest ≠ [])
    (htrivia : Lexeme.triviaSize false c.rest = 0)
    (hread : Lexeme.read c.rest = Lexeme.word c.rest) (hfind : Keyword.find? c.rest = none) :
    ∃ s rest, c.rest = s ++ rest ∧ Lexeme.Identifier s rest ∧
      c.fetchHere.token = ⟨.ident, c.line, c.span 0 s.length⟩ ∧
      c.fetchHere.cursor = c.skip s.length := by
  rw [Lexeme.word, hfind] at hread
  have hspelled := Lexeme.spelled_of_read hrest htrivia hread
  have hlength : (c.rest.take (Lexeme.identSize c.rest)).length = Lexeme.identSize c.rest :=
    List.length_take_of_le (Lexeme.identSize_le c.rest)
  refine ⟨_, _, (List.take_append_drop _ _).symm, hspelled, ?_, ?_⟩
  · rw [hlength, fetchHere, if_neg hrest, hread]
    rfl
  · rw [hlength, fetchHere, if_neg hrest, hread]
    rfl

/-- **A word is the keyword that stands there, or an identifier.**  Wherever a token starts
with neither a digit nor an opener, at most one of the keywords with its first letter stands,
so that they may be tried in any order.  The token is a keyword exactly if that keyword stands
there, with the space that ends it and nothing else that does; and otherwise it is an
identifier, from the same place and line up to the first separator. -/
theorem fetch_word (c : Cursor) {item : Utf8.Item}
    (hitem : Utf8.head? c.skipTrivia.rest = some item)
    (hdigit : Lexeme.isDigit item.toChar = false) (hopener : item.toChar ∉ Lexeme.openers) :
    c.skipTrivia.FetchesWord (Keyword.withLead item.toChar) c.fetch := by
  have htrivia : Lexeme.triviaSize false c.skipTrivia.rest = 0 :=
    Lexeme.triviaSize_drop false c.rest
  have hread := Lexeme.read_eq_word hitem hdigit hopener
  rw [fetch]
  generalize c.skipTrivia = start at *
  have hrest : start.rest ≠ [] := fun h => by
    rw [h] at hitem
    cases hitem
  have hknown {k : Keyword} (hk : k ∈ Keyword.withLead item.toChar) :=
    Keyword.mem_table_of_mem_withLead hk
  have hfind := Keyword.findIn_perm hitem (.refl _)
  have hkeyword : ∀ k ∈ Keyword.withLead item.toChar, ∀ s rest, start.rest = s ++ rest →
      k.StandsBefore rest s → start.fetchHere =
        { token := ⟨k.kind, start.line, start.span 0 s.length⟩,
          cursor := start.skip s.length } := by
    intro k hk s rest hsplit hstands
    refine fetchHere_of_find? hrest hread ?_
    rw [← hfind, Keyword.findIn_eq_some_iff fun _ => hknown]
    exact ⟨k, hk, rfl, (Keyword.size?_eq_some_iff (hknown hk)).2 ⟨s, rest, hsplit, rfl, hstands⟩⟩
  have hidentifier (hnone : ∀ k ∈ Keyword.withLead item.toChar, ¬ k.Stands start.rest) :
      Keyword.find? start.rest = none := by
    rw [← hfind]
    refine List.findSome?_eq_none_iff.2 fun k hk => ?_
    have hsize := mt (Keyword.isSome_size?_iff (hknown hk)).1 (hnone k hk)
    rw [Option.not_isSome_iff_eq_none.1 hsize]
    rfl
  refine ⟨fun k hk k' hk' => Keyword.eq_of_stands (hknown hk) (hknown hk'), fun order horder => ?_,
    fun k hk => ⟨fun hkind => ?_, ?_⟩, hkeyword, fun hnone => ?_⟩
  · rw [hread]
    exact Lexeme.word_eq_wordIn (Keyword.findIn_perm hitem horder)
  · by_cases hany : ∃ k' ∈ Keyword.withLead item.toChar, k'.Stands start.rest
    · obtain ⟨k', hk', s, rest, hsplit, hstands⟩ := hany
      rw [hkeyword k' hk' s rest hsplit hstands] at hkind
      obtain rfl := Keyword.eq_of_kind hk' hk hkind
      exact ⟨s, rest, hsplit, hstands⟩
    · have hnone := hidentifier fun k' hk' hstands => hany ⟨k', hk', hstands⟩
      obtain ⟨s, rest, -, -, htoken, -⟩ := fetchHere_of_find?_eq_none hrest htrivia hread hnone
      rw [htoken] at hkind
      exact absurd hkind.symm (Keyword.kind_ne_ident k (hknown hk))
  · rintro ⟨s, rest, hsplit, hstands⟩
    rw [hkeyword k hk s rest hsplit hstands]
  · exact fetchHere_of_find?_eq_none hrest htrivia hread (hidentifier hnone)

/-- Before a tab, which does not belong to it, the shorter of two keywords with one leading
letter is found. -/
theorem fetch_word_before_tab :
    Utf8.head? (start 0 " و\tس").skipTrivia.rest = some (.char 'و') ∧
      Lexeme.isDigit 'و' = false ∧ 'و' ∉ Lexeme.openers ∧
      (start 0 " و\tس").fetch =
        { token := ⟨.kwAnd, 1, ⟨0, 1, 3⟩⟩, cursor := (start 0 " و\tس").skip 3 } := by
  have hitem : Utf8.head? (start 0 " و\tس").skipTrivia.rest = some (.char 'و') := by
    decide
  have hdigit : Lexeme.isDigit 'و' = false := by decide
  have hopener : 'و' ∉ Lexeme.openers := by decide
  have hword := fetch_word (start 0 " و\tس") hitem hdigit hopener
  have htab : ∀ b ∈ (Text.ofString "\tس").head?, b = 0x0A ∨ b = 0x09 ∨ b = 0x0D := by
    decide +kernel
  have hstands : Keyword.StandsBefore ⟨'و', "", true, .kwAnd⟩ "\tس" (Utf8.encode 'و' ++ []) :=
    .stopped rfl htab
  have hfetch := hword.keyword ⟨'و', "", true, .kwAnd⟩ (by decide) "و" "\tس" (by decide)
    hstands
  refine ⟨hitem, hdigit, hopener, hfetch.trans ?_⟩
  rfl

end Cursor
end Tarjuman
