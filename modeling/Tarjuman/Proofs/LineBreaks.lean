/-
# Reading line by line

A line feed ends whatever stands before it just as the end of the content does: digits,
operators, keywords, identifiers, a raw literal that has found its brace, and a comment.
So for every class of lexeme the bytes before a line feed decide (`Lexeme.read_append`),
and only a string or a raw literal without an end goes on below it.  Where there is none
of these, reading two texts with a line feed between them is reading the one and then the
other, with the places of the second moved (`tokenize_append_lineFeed`).
-/

import Mathlib.Data.List.TakeWhile
import Tarjuman.Proofs.ByteCoverage
import Tarjuman.Proofs.Shift

namespace Tarjuman

/-! ## A line feed behind a text -/

namespace Text

/-- A text without the byte `a` does not reach over it. -/
theorem prefix_append_cons_iff {p s b : Text} {a : UInt8} (h : a ∉ p) :
    p <+: s ++ a :: b ↔ p <+: s := by
  refine ⟨fun hp => ?_, fun hp => hp.trans (List.prefix_append s _)⟩
  rcases Nat.lt_or_ge s.length p.length with hlt | hle
  · have hlong : s ++ [a] <+: p := by
      refine List.prefix_of_prefix_length_le ?_ hp ?_
      · exact ⟨b, by rw [List.append_assoc]; rfl⟩
      · rw [List.length_append, List.length_singleton]
        omega
    exact absurd (hlong.subset (List.mem_append_right s List.mem_cons_self)) h
  · exact List.prefix_of_prefix_length_le hp (List.prefix_append s _) hle

theorem isPrefixOf_append_cons {p s b : Text} {a : UInt8} (h : a ∉ p) :
    p.isPrefixOf (s ++ a :: b) = p.isPrefixOf s := by
  rw [Bool.eq_iff_iff, List.isPrefixOf_iff_prefix, List.isPrefixOf_iff_prefix,
    prefix_append_cons_iff h]

theorem after?_append_cons {p s b : Text} {a : UInt8} (h : a ∉ p) :
    (s ++ a :: b).after? p = (s.after? p).map (· ++ a :: b) := by
  cases hs : s.after? p with
  | some r =>
    obtain rfl := after?_eq_some_iff.1 hs
    rw [Option.map_some, after?_eq_some_iff, List.append_assoc]
  | none =>
    rw [Option.map_none, Option.eq_none_iff_forall_ne_some]
    intro r hr
    obtain ⟨r', rfl⟩ := (prefix_append_cons_iff h).1 ⟨r, (after?_eq_some_iff.1 hr).symm⟩
    rw [after?_eq_some_iff.2 rfl] at hs
    cases hs

end Text

namespace Keyword

variable (b : Text)

theorem delimiterSize?_append (r : Text) :
    delimiterSize? (r ++ Cursor.lineFeed :: b) = delimiterSize? r := by
  cases r <;> rfl

theorem size?_append {k : Keyword} (hk : k ∈ table) (s : Text) :
    k.size? (s ++ Cursor.lineFeed :: b) = k.size? s := by
  have hclean : ∀ k ∈ table, Cursor.lineFeed ∉ k.spelling := by decide
  have hafter := Text.after?_append_cons (s := s) (b := b) (hclean k hk)
  rw [Text.after?, Text.after?] at hafter
  rw [size?, size?, hafter]
  cases k.spelling.isPrefixOf? s with
  | none => rfl
  | some r => simp only [Option.map_some, delimiterSize?_append]

theorem find?_append (s : Text) : find? (s ++ Cursor.lineFeed :: b) = find? s := by
  rw [find?, find?, ← List.head?_filterMap, ← List.head?_filterMap]
  refine congrArg List.head? (List.filterMap_congr fun k hk => ?_)
  rw [size?_append b hk]

end Keyword

namespace Lexeme

variable (b : Text)

theorem digitsSize_append (s : Text) : digitsSize (s ++ Cursor.lineFeed :: b) = digitsSize s := by
  fun_induction digitsSize s with
  | case1 => rw [List.nil_append, digitsSize.eq_def]; cases b <;> rfl
  | case2 a r hwestern ih =>
    rw [List.cons_append, digitsSize.eq_def]
    simp [hwestern, ih]
  | case3 a hwestern =>
    have hlast : isArabicDigit a Cursor.lineFeed = false := by
      simp [isArabicDigit, Cursor.lineFeed]
    rw [List.cons_append, digitsSize.eq_def]
    simp [hwestern, hlast]
  | case4 a hwestern c r harabic ih =>
    rw [List.cons_append, List.cons_append, digitsSize.eq_def]
    simp [hwestern, harabic, ih]
  | case5 a hwestern c r harabic =>
    rw [List.cons_append, List.cons_append, digitsSize.eq_def]
    simp [hwestern, harabic]

theorem numberSize_append (s : Text) : numberSize (s ++ Cursor.lineFeed :: b) = numberSize s := by
  rw [numberSize, numberSize, digitsSize_append,
    List.drop_append_of_le_length (digitsSize_le s)]
  cases s.drop (digitsSize s) with
  | nil => rfl
  | cons a r => simp only [List.cons_append, digitsSize_append]

theorem stringSize?_append {r : Text} {n : Nat} (h : stringSize? r = some n) (x : Text) :
    stringSize? (r ++ x) = some n := by
  fun_induction stringSize? r generalizing n with
  | case1 => cases h
  | case2 a r hquote =>
    rw [List.cons_append, stringSize?.eq_def]
    simpa [hquote] using h
  | case3 => cases h
  | case4 a hquote hback a' r ih =>
    obtain ⟨m, hm, rfl⟩ := Option.map_eq_some_iff.1 h
    rw [List.cons_append, List.cons_append, stringSize?.eq_def]
    simp [hquote, hback, ih hm]
  | case5 a r hquote hback ih =>
    obtain ⟨m, hm, rfl⟩ := Option.map_eq_some_iff.1 h
    rw [List.cons_append, stringSize?.eq_def]
    simp [hquote, hback, ih hm]

theorem rawSize?_append {depth : Nat} {r : Text} {n : Nat} (h : rawSize? depth r = some n)
    (x : Text) : rawSize? depth (r ++ x) = some n := by
  fun_induction rawSize? depth r generalizing n with
  | case1 => cases h
  | case2 a r hbrace =>
    rw [List.cons_append, rawSize?, if_pos hbrace]
    exact h
  | case3 a r hbrace ih =>
    obtain ⟨m, hm, rfl⟩ := Option.map_eq_some_iff.1 h
    rw [List.cons_append, rawSize?, if_neg hbrace, ih hm, Option.map_some]
  | case4 d a r depth =>
    rename_i ih
    obtain ⟨m, hm, rfl⟩ := Option.map_eq_some_iff.1 h
    rw [List.cons_append, rawSize?, ih hm, Option.map_some]

theorem identSize_append {s : Text} (h : s ≠ []) :
    identSize (s ++ Cursor.lineFeed :: b) = identSize s := by
  obtain ⟨a, r, rfl⟩ := List.exists_cons_of_ne_nil h
  have hstop : (Cursor.lineFeed :: b).takeWhile (!isSeparator ·) = [] := rfl
  rw [List.cons_append, identSize, identSize, List.takeWhile_append, hstop, List.append_nil]
  split
  · rename_i hall
    rw [hall]
  · rfl

theorem operator?_append (s : Text) : operator? (s ++ Cursor.lineFeed :: b) = operator? s := by
  have hclean : ∀ o ∈ operators, Cursor.lineFeed ∉ Text.ofString o.1 := by decide
  rw [operator?, operator?, ← List.head?_filterMap, ← List.head?_filterMap]
  refine congrArg List.head? (List.filterMap_congr fun o ho => ?_)
  dsimp only
  rw [Text.isPrefixOf_append_cons (hclean o ho)]

/-- No end was found. -/
def isOpen : Lexeme → Bool
  | openString | openRaw => true
  | token _ _ | raw _ _ _ => false

/-- A raw literal that has found its brace; the dash behind it is none that the line feed
hides. -/
theorem rawLiteral_append {r : Text} (h : (rawLiteral r).isOpen = false) :
    rawLiteral (r ++ Cursor.lineFeed :: b) = rawLiteral r := by
  rw [rawLiteral] at h
  split at h
  · cases h
  · rename_i n hn
    have hlt := rawSize?_lt hn
    have hdash : (r.drop (n + 1) ++ Cursor.lineFeed :: b).head? = some (Text.byte '-') ↔
        (r.drop (n + 1)).head? = some (Text.byte '-') := by
      cases r.drop (n + 1) with
      | nil => exact iff_of_false (by simp [Cursor.lineFeed]; decide) (by simp)
      | cons a s => rfl
    rw [rawLiteral, rawLiteral, rawSize?_append hn, hn]
    simp only [List.take_append_of_le_length (Nat.le_of_lt hlt),
      List.drop_append_of_le_length (Nat.succ_le_of_lt hlt), hdash]

/-- **The bytes before a line feed decide what stands at their head**, unless it has no
end there. -/
theorem read_append {s : Text} (hs : s ≠ []) (h : (read s).isOpen = false) :
    read (s ++ Cursor.lineFeed :: b) = read s := by
  rw [read] at h
  rw [read, read, digitsSize_append, numberSize_append, operator?_append,
    Text.after?_append_cons (by decide), Text.after?_append_cons (by decide)]
  split at h
  · rename_i hdigits
    rw [if_pos hdigits, if_pos hdigits]
  · rename_i hdigits
    rw [if_neg hdigits, if_neg hdigits]
    split at h
    · rename_i hraw
      rw [hraw]
      exact rawLiteral_append b h
    · rename_i r hraw hstring
      rw [hraw, hstring]
      simp only [Option.map_none, Option.map_some]
      rw [string] at h
      split at h
      · cases h
      · rename_i n hn
        rw [string, string, stringSize?_append hn, hn]
    · rename_i hraw hstring hop
      rw [hraw, hstring, hop]
      rfl
    · rename_i hraw hstring hop
      rw [hraw, hstring, hop]
      simp only [Option.map_none, word, Keyword.find?_append, identSize_append b hs]

/-- Trivia goes on below a line feed if it gets to it. -/
theorem triviaSize_append (comment : Bool) (s : Text) :
    triviaSize comment (s ++ Cursor.lineFeed :: b) =
      if triviaSize comment s = s.length then s.length + 1 + triviaSize false b
      else triviaSize comment s := by
  fun_induction triviaSize comment s with
  | case1 comment =>
    rw [List.nil_append]
    cases comment <;> simp [triviaSize, isBlank, Cursor.lineFeed]
  | case2 a r ih =>
    rw [List.cons_append, triviaSize, ih, List.length_cons]
    split <;> split <;> omega
  | case3 a r hblank ih =>
    rw [List.cons_append, triviaSize, if_pos hblank, ih, List.length_cons]
    split <;> split <;> omega
  | case4 a r hblank hslash ih =>
    have hhead : (r ++ Cursor.lineFeed :: b).head? = r.head? := by
      cases r with
      | nil => simp at hslash
      | cons c r => rfl
    rw [List.cons_append, triviaSize, if_neg hblank, hhead, if_pos hslash, ih, List.length_cons]
    split <;> split <;> omega
  | case5 a r hblank hslash =>
    have hhead : ¬ ((a == Text.byte '/' && (r ++ Cursor.lineFeed :: b).head? ==
        some (Text.byte '/')) = true) := by
      cases r with
      | nil => simp [Cursor.lineFeed, Text.byte]
      | cons c r => exact hslash
    rw [List.cons_append, triviaSize, if_neg hblank, if_neg hhead, List.length_cons]
    rfl

end Lexeme

/-! ## Cursors above a line feed -/

namespace Cursor

/-- The cursor with more bytes behind those that are left. -/
def extend (x : Text) (c : Cursor) : Cursor := { c with rest := c.rest ++ x }

/-- The cursor before `b`, which stands one line feed behind what is left. -/
def below (b : Text) (c : Cursor) : Cursor :=
  ⟨c.file, b, c.off + UInt32.ofNat (c.rest.length + 1),
    c.line + UInt32.ofNat (c.rest.count lineFeed + 1)⟩

end Cursor

/-- What was fetched with more bytes behind those that are left. -/
def Fetch.extend (x : Text) (f : Fetch) : Fetch := { f with cursor := f.cursor.extend x }

namespace Cursor

variable (b : Text) (c : Cursor)

theorem skip_extend (x : Text) {n : Nat} (hn : n ≤ c.rest.length) :
    (c.extend x).skip n = (c.skip n).extend x := by
  simp only [skip, extend, List.take_append_of_le_length hn, List.drop_append_of_le_length hn]

/-- Passing over all that is left and the line feed. -/
theorem skip_extend_lineFeed :
    (c.extend (lineFeed :: b)).skip (c.rest.length + 1) = c.below b := by
  have htake : (c.rest ++ lineFeed :: b).take (c.rest.length + 1) = c.rest ++ [lineFeed] := by
    rw [List.take_length_add_append]
    rfl
  have hdrop : (c.rest ++ lineFeed :: b).drop (c.rest.length + 1) = b := by
    rw [List.drop_length_add_append]
    rfl
  simp only [skip, extend, below, htake, hdrop, lineFeeds, List.length_append, List.count_append,
    List.length_singleton, List.count_singleton_self]

theorem below_skip {n : Nat} (hn : n ≤ c.rest.length) : (c.skip n).below b = c.below b := by
  have hlen : (c.rest.take n).length + ((c.rest.drop n).length + 1) = c.rest.length + 1 := by
    rw [List.length_take, List.length_drop]
    omega
  have hcount : (c.rest.take n).count lineFeed + ((c.rest.drop n).count lineFeed + 1) =
      c.rest.count lineFeed + 1 := by
    rw [← Nat.add_assoc, ← List.count_append, List.take_append_drop]
  simp only [below, skip, lineFeeds, UInt32.add_assoc, ← UInt32.ofNat_add, hlen, hcount]

theorem skip_skip (m n : Nat) : (c.skip m).skip n = c.skip (m + n) := by
  have hlen : (c.rest.take m).length + ((c.rest.drop m).take n).length =
      (c.rest.take (m + n)).length := by
    rw [List.take_add, List.length_append]
  have hcount : (c.rest.take m).count lineFeed + ((c.rest.drop m).take n).count lineFeed =
      (c.rest.take (m + n)).count lineFeed := by
    rw [List.take_add, List.count_append]
  simp only [skip, lineFeeds, List.drop_drop, UInt32.add_assoc, ← UInt32.ofNat_add, hlen, hcount]

/-- A lexeme that is closed before the line feed. -/
theorem fetchHere_extend (hrest : c.rest ≠ [])
    (hclosed : ∀ d ∈ c.fetchHere.report, d.isUnclosed = false) :
    (c.extend (lineFeed :: b)).fetchHere = c.fetchHere.extend (lineFeed :: b) ∧
      c.fetchHere.cursor.below b = c.below b ∧ c.fetchHere.token.kind ≠ .endOfInput := by
  have hfits := Lexeme.read_fits hrest
  have hopen : (Lexeme.read c.rest).isOpen = false := by
    rw [fetchHere, if_neg hrest] at hclosed
    split at hclosed <;> rename_i hread <;> rw [hread]
    · rfl
    · rfl
    · exact absurd (hclosed _ rfl) (by simp [Diagnostic.isUnclosed, Diagnostic.error])
    · exact absurd (hclosed _ rfl) (by simp [Diagnostic.isUnclosed, Diagnostic.error])
  have hextend : (c.extend (lineFeed :: b)).rest = c.rest ++ lineFeed :: b := rfl
  rw [fetchHere, fetchHere, hextend, Lexeme.read_append b hrest hopen, if_neg hrest,
    if_neg (List.append_ne_nil_of_left_ne_nil hrest _)]
  split <;> rename_i hread <;> rw [hread] at hfits hopen
  · rename_i kind size
    obtain ⟨-, hle, hkind, -⟩ := hfits
    refine ⟨?_, c.below_skip b hle, hkind⟩
    simp only [take, hextend, skip_extend c _ hle, List.take_append_of_le_length hle]
    rfl
  · rename_i lead size total
    obtain ⟨hlt, hle⟩ := hfits
    refine ⟨?_, c.below_skip b hle, by simp⟩
    have hlead : lead ≤ c.rest.length := by omega
    simp only [skip_extend c _ hle, List.take_append_of_le_length hlead]
    rfl
  · cases hopen
  · cases hopen

/-- Where there is only trivia before the line feed, the next token stands below it. -/
theorem fetch_extend_of_end (hend : c.skipTrivia.rest = []) :
    (c.extend (lineFeed :: b)).fetch = (c.below b).fetch := by
  have hsize : Lexeme.triviaSize false c.rest = c.rest.length := by
    have hlen := congrArg List.length hend
    have hle := Lexeme.triviaSize_le false c.rest
    rw [skipTrivia, length_rest_skip, List.length_nil] at hlen
    omega
  have htrivia : (c.extend (lineFeed :: b)).skipTrivia = (c.below b).skipTrivia := by
    have hrest : (c.extend (lineFeed :: b)).rest = c.rest ++ lineFeed :: b := rfl
    rw [skipTrivia, hrest, Lexeme.triviaSize_append, if_pos hsize, ← skip_skip,
      skip_extend_lineFeed]
    rfl
  rw [fetch, fetch, htrivia]

/-- Where a lexeme stands before the line feed and is closed there. -/
theorem fetch_extend_of_rest (hrest : c.skipTrivia.rest ≠ [])
    (hclosed : ∀ d ∈ c.fetch.report, d.isUnclosed = false) :
    (c.extend (lineFeed :: b)).fetch = c.fetch.extend (lineFeed :: b) ∧
      c.fetch.cursor.below b = c.below b ∧ c.fetch.token.kind ≠ .endOfInput := by
  have hle := Lexeme.triviaSize_le false c.rest
  have hsize : ¬ Lexeme.triviaSize false c.rest = c.rest.length := by
    intro hall
    exact hrest (by rw [skipTrivia, skip, hall, List.drop_length])
  have htrivia : (c.extend (lineFeed :: b)).skipTrivia = c.skipTrivia.extend (lineFeed :: b) := by
    have hextend : (c.extend (lineFeed :: b)).rest = c.rest ++ lineFeed :: b := rfl
    rw [skipTrivia, hextend, Lexeme.triviaSize_append, if_neg hsize, skip_extend c _ hle]
    rfl
  obtain ⟨hfetch, hbelow, hkind⟩ := c.skipTrivia.fetchHere_extend b hrest hclosed
  refine ⟨?_, hbelow.trans (c.below_skip b hle), hkind⟩
  rw [fetch, htrivia, hfetch]
  rfl

theorem fetchAll_congr {c c' : Cursor} (h : c.fetch = c'.fetch) : c.fetchAll = c'.fetchAll := by
  rw [fetchAll.eq_def c, fetchAll.eq_def c', h]

/-- **Reading up to a line feed and on below it.**  If nothing is left open, the end of the
input gives way to what stands below the line feed. -/
theorem fetchAll_extend (hclosed : ∀ f ∈ c.fetchAll, ∀ d ∈ f.report, d.isUnclosed = false) :
    ∃ body last, c.fetchAll = body ++ [last] ∧ last.token.kind = .endOfInput ∧
      last.report = none ∧
      (c.extend (lineFeed :: b)).fetchAll =
        body.map (Fetch.extend (lineFeed :: b)) ++ (c.below b).fetchAll := by
  fun_induction fetchAll c with
  | case1 c hend =>
    have hclosed := List.forall_mem_singleton.1 hclosed
    have hrest : c.skipTrivia.rest = [] := by
      by_contra hrest
      exact (c.fetch_extend_of_rest b hrest hclosed).2.2 hend
    refine ⟨[], c.fetch, rfl, hend, ?_, fetchAll_congr (c.fetch_extend_of_end b hrest)⟩
    rw [fetch, fetchHere, if_pos hrest]
  | case2 c hend ih =>
    obtain ⟨hfirst, hmore⟩ := List.forall_mem_cons.1 hclosed
    have hrest : c.skipTrivia.rest ≠ [] := by
      intro hrest
      refine hend ?_
      rw [fetch, fetchHere, if_pos hrest]
      rfl
    obtain ⟨hfetch, hbelow, -⟩ := c.fetch_extend_of_rest b hrest hfirst
    obtain ⟨body, last, hall, hlast, hreport, hextend⟩ := ih hmore
    refine ⟨c.fetch :: body, last, by rw [hall]; rfl, hlast, hreport, ?_⟩
    have hend' : ¬ (c.extend (lineFeed :: b)).fetch.token.kind = .endOfInput := by
      rw [hfetch]
      exact hend
    rw [fetchAll, dif_neg hend', hfetch, List.map_cons, List.cons_append, ← hbelow, ← hextend]
    rfl

/-- Reports name a range of the content. -/
theorem exists_range_report {file : FileId} {content : Text} {pos : Nat} {c : Cursor}
    (h : c.At file content pos) :
    ∀ d ∈ c.fetch.report, ∃ p q, p ≤ q ∧ q ≤ content.length ∧
      d.span = ⟨file, UInt32.ofNat p, UInt32.ofNat q⟩ := by
  have hhere := h.skipTrivia
  generalize pos + Lexeme.triviaSize false c.rest = p at hhere
  rw [fetch]
  generalize c.skipTrivia = c at hhere
  have hrange {n : Nat} (hn : n ≤ c.rest.length) : ∃ p q, p ≤ q ∧ q ≤ content.length ∧
      c.span 0 n = ⟨file, UInt32.ofNat p, UInt32.ofNat q⟩ := by
    have hnext := (hhere.skip hn).inside
    have hspan := hhere.span_eq 0 n
    rw [Nat.zero_add, Nat.add_zero] at hspan
    exact ⟨p, p + n, Nat.le_add_right p n, hnext, hspan⟩
  have hunclosed : (c.skip c.rest.length).spanFrom c = c.span 0 c.rest.length := by
    rw [spanFrom, skip, List.take_length, span]
    simp
  rw [fetchHere]
  split
  · simp
  · rename_i hrest
    have hfits := Lexeme.read_fits hrest
    split <;> rename_i hread <;> rw [hread] at hfits
    · rw [take]
      intro d hd
      dsimp only at hd
      split at hd
      · obtain rfl := Option.some.inj hd
        exact hrange hfits.2.1
      · cases hd
    · simp
    · rintro d ⟨⟩
      show ∃ p q, _ ∧ _ ∧ (c.skip c.rest.length).spanFrom c = _
      rw [hunclosed]
      exact hrange le_rfl
    · rintro d ⟨⟩
      show ∃ p q, _ ∧ _ ∧ (c.skip c.rest.length).spanFrom c = _
      rw [hunclosed]
      exact hrange le_rfl

end Cursor

theorem exists_range_of_mem_reports (file : FileId) (content : Text) :
    ∀ d ∈ (tokenize file content).reports, ∃ p q, p ≤ q ∧ q ≤ content.length ∧
      d.span = ⟨file, UInt32.ofNat p, UInt32.ofNat q⟩ := by
  suffices hall : ∀ (c : Cursor) (pos : Nat), c.At file content pos →
      ∀ f ∈ c.fetchAll, ∀ d ∈ f.report, ∃ p q, p ≤ q ∧ q ≤ content.length ∧
        d.span = ⟨file, UInt32.ofNat p, UInt32.ofNat q⟩ by
    intro d hd
    obtain ⟨f, hf, hd⟩ := List.mem_filterMap.1 hd
    exact hall _ 0 (Cursor.start_at file content) f hf d hd
  intro c pos h
  fun_induction Cursor.fetchAll c generalizing pos with
  | case1 c _ => exact List.forall_mem_singleton.2 (Cursor.exists_range_report h)
  | case2 c hend ih =>
    refine List.forall_mem_cons.2 ⟨Cursor.exists_range_report h, ?_⟩
    cases h.fetch with
    | token _ _ _ _ _ _ cursor => exact ih _ cursor
    | finish kind _ _ => exact absurd kind hend

/-! ## Contents with a line feed between them -/

/-- Behind the text `a` and a line feed. -/
def Shift.behindLine (a : Text) : Shift :=
  ⟨0, UInt32.ofNat (a.length + 1), UInt32.ofNat (1 + a.count Cursor.lineFeed)⟩

theorem Cursor.below_start (file : FileId) (a b : Text) :
    (Cursor.start file a).below b = (Cursor.start file b).shift (.behindLine a) := by
  simp only [below, start, shift, Shift.behindLine, UInt32.add_zero, Nat.add_comm]

/-- Offsets of a content behind a line do not wrap if words can index both together. -/
theorem Span.toNat_shift_behindLine {file : FileId} {a b : Text} {s : Span} {p q : Nat}
    (hle : p ≤ q) (hin : q ≤ b.length) (hspan : s = ⟨file, UInt32.ofNat p, UInt32.ofNat q⟩)
    (hshort : a.length + b.length < 2 ^ 32 - 2) :
    (s.shift (.behindLine a)).file = s.file ∧
      (s.shift (.behindLine a)).start.toNat = s.start.toNat + (a.length + 1) ∧
      (s.shift (.behindLine a)).stop.toNat = s.stop.toNat + (a.length + 1) := by
  have hsize : UInt32.size = 2 ^ 32 := rfl
  subst hspan
  have hword {n : Nat} (hn : n ≤ b.length) :
      (UInt32.ofNat n + UInt32.ofNat (a.length + 1)).toNat =
        (UInt32.ofNat n).toNat + (a.length + 1) := by
    rw [← UInt32.ofNat_add, UInt32.toNat_ofNat_of_lt' (by omega),
      UInt32.toNat_ofNat_of_lt' (by omega)]
  exact ⟨UInt32.add_zero file, hword (by omega), hword hin⟩

/-- **Reading is compositional at line breaks.**  If nothing in `a` is left open, reading `a`
and `b` with a line feed between them gives the tokens of `a` without the end of the input and
then those of `b`, moved by the bytes and the lines before them, and the reports likewise.
Moved places do not wrap if `a` and `b` together are shorter than `2 ^ 32 - 2` bytes. -/
theorem tokenize_append_lineFeed (file : FileId) (a b : Text)
    (hclosed : ∀ d ∈ (tokenize file a).reports, d.isUnclosed = false) :
    ∃ body last, (tokenize file a).tokens = body ++ [last] ∧ last.kind = .endOfInput ∧
      (tokenize file (a ++ Cursor.lineFeed :: b)).tokens =
        body ++ (tokenize file b).tokens.map (Token.shift (.behindLine a)) ∧
      (tokenize file (a ++ Cursor.lineFeed :: b)).reports =
        (tokenize file a).reports ++
          (tokenize file b).reports.map (Diagnostic.shift (.behindLine a)) ∧
      (a.length + b.length < 2 ^ 32 - 2 →
        (∀ t ∈ (tokenize file b).tokens,
          (t.shift (.behindLine a)).line.toNat = t.line.toNat + (1 + a.count Cursor.lineFeed) ∧
          (t.shift (.behindLine a)).span.file = t.span.file ∧
          (t.shift (.behindLine a)).span.start.toNat = t.span.start.toNat + (a.length + 1) ∧
          (t.shift (.behindLine a)).span.stop.toNat = t.span.stop.toNat + (a.length + 1)) ∧
        ∀ d ∈ (tokenize file b).reports,
          (d.shift (.behindLine a)).span.file = d.span.file ∧
          (d.shift (.behindLine a)).span.start.toNat = d.span.start.toNat + (a.length + 1) ∧
          (d.shift (.behindLine a)).span.stop.toNat = d.span.stop.toNat + (a.length + 1)) := by
  have hopen : ∀ f ∈ (Cursor.start file a).fetchAll, ∀ d ∈ f.report, d.isUnclosed = false :=
    fun f hf d hd => hclosed d (List.mem_filterMap.2 ⟨f, hf, hd⟩)
  obtain ⟨body, last, hall, hlast, hreport, hextend⟩ :=
    (Cursor.start file a).fetchAll_extend b hopen
  have htokens : (body.map (Fetch.extend (Cursor.lineFeed :: b))).map (·.token) =
      body.map (·.token) := by
    rw [List.map_map]
    rfl
  have hreports : (body.map (Fetch.extend (Cursor.lineFeed :: b))).filterMap (·.report) =
      body.filterMap (·.report) := by
    rw [List.filterMap_map]
    rfl
  have hboth : (Cursor.start file (a ++ Cursor.lineFeed :: b)).fetchAll =
      body.map (Fetch.extend (Cursor.lineFeed :: b)) ++
        (Cursor.start file b).fetchAll.map (Fetch.shift (.behindLine a)) := by
    rw [← Cursor.fetchAll_shift, ← Cursor.below_start]
    exact hextend
  refine ⟨body.map (·.token), last.token, ?_, hlast, ?_, ?_, fun hshort => ⟨?_, ?_⟩⟩
  · simp only [tokenize, hall, List.map_append, List.map_singleton]
  · simp only [tokenize, hboth, List.map_append, htokens, List.map_map]
    rfl
  · simp only [tokenize, hall, hboth, List.filterMap_append, hreports, List.filterMap_map,
      List.map_filterMap, List.filterMap_cons_none hreport, List.filterMap_nil, List.append_nil]
    rfl
  · intro t ht
    obtain ⟨p, q, hcovers⟩ := (readFrom_tokenize file b).exists_covers t ht
    refine ⟨?_, Span.toNat_shift_behindLine hcovers.ordered hcovers.inside hcovers.span_eq hshort⟩
    have hsize : UInt32.size = 2 ^ 32 := rfl
    have hline := lineAt_le b p
    have hcount := List.count_le_length (a := Cursor.lineFeed) (l := a)
    show (t.line + UInt32.ofNat (1 + a.count Cursor.lineFeed)).toNat = _
    rw [hcovers.line_eq, ← UInt32.ofNat_add, UInt32.toNat_ofNat_of_lt' (by omega),
      UInt32.toNat_ofNat_of_lt' (by omega)]
  · intro d hd
    obtain ⟨p, q, hle, hin, hspan⟩ := exists_range_of_mem_reports file b d hd
    exact Span.toNat_shift_behindLine hle hin hspan hshort

/-- A cut-off character before the line feed and a string left open below it: the string is
reported where it stands behind the line. -/
theorem tokenize_append_lineFeed_cut :
    (∀ d ∈ (tokenize 0 [0xD8, 0x2F, 0x2F, 0x22]).reports, d.isUnclosed = false) ∧
      ∃ body last, (tokenize 0 [0xD8, 0x2F, 0x2F, 0x22]).tokens = body ++ [last] ∧
        last.kind = .endOfInput ∧
        (tokenize 0 [0xD8, 0x2F, 0x2F, 0x22, 0x0A, 0x22]).tokens =
          body ++ (tokenize 0 [0x22]).tokens.map (Token.shift ⟨0, 5, 1⟩) ∧
        (tokenize 0 [0xD8, 0x2F, 0x2F, 0x22, 0x0A, 0x22]).reports =
          (tokenize 0 [0xD8, 0x2F, 0x2F, 0x22]).reports ++
            (tokenize 0 [0x22]).reports.map (Diagnostic.shift ⟨0, 5, 1⟩) := by
  have hclosed : ∀ d ∈ (tokenize 0 [0xD8, 0x2F, 0x2F, 0x22]).reports, d.isUnclosed = false := by
    decide +kernel
  obtain ⟨body, last, htokens, hlast, hall, hreports, -⟩ :=
    tokenize_append_lineFeed 0 [0xD8, 0x2F, 0x2F, 0x22] [0x22] hclosed
  exact ⟨hclosed, body, last, htokens, hlast, hall, hreports⟩

end Tarjuman
