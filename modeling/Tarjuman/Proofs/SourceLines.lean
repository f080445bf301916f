/-
# Offsets, places and lines

A file answers three questions with its line index: the place of an offset, the number of
its lines and the text of a line.  The answers are compared here with each other and with the
content cut at its line feeds (`Text.splitOn`).

* Line `n` runs from its start up to the next line feed or the end of the content
  (`Source.StartsLine.exists_end`), and that is the text given for it
  (`SourceFile.line_of_startsLine`).
* The lines of the file are the pieces between line feeds; the empty piece behind a line feed
  at the end, and the only piece of an empty content, is no line (`SourceFile.splitOn_eq_lines`).
* Places grow with offsets, and a byte is found at its column in the text of its line
  (`SourceFile.getElem?_line_place`).

`FileSet.Made.places_fit_lines` puts this together for every file of every file set.
-/

import Mathlib.Algebra.Group.Nat.Defs
import Mathlib.Data.List.TakeWhile
import Tarjuman.Proofs.LexemeText
import Tarjuman.Proofs.LineIndex
import Tarjuman.Proofs.PathComponents

namespace Tarjuman

namespace Text

theorem join_splitOn (sep : UInt8) (s : Text) : join [sep] (splitOn sep s) = s := by
  induction s with
  | nil => rfl
  | cons b r ih =>
    obtain ⟨piece, more, hr⟩ := List.exists_cons_of_ne_nil (splitOn_ne_nil sep r)
    rw [hr] at ih
    by_cases hb : b = sep
    · rw [hb, splitOn_cons_of_eq, hr, join, List.intercalate_cons_cons]
      exact congrArg (sep :: ·) ih
    · rw [splitOn_cons_of_ne hb hr]
      cases more with
      | nil => exact congrArg (b :: ·) ih
      | cons next more =>
        rw [join, List.intercalate_cons_cons] at ih ⊢
        exact congrArg (b :: ·) ih

theorem length_splitOn (sep : UInt8) (s : Text) :
    (splitOn sep s).length = s.count sep + 1 := by
  induction s with
  | nil => rfl
  | cons b r ih =>
    by_cases hb : b = sep
    · rw [hb, splitOn_cons_of_eq, List.length_cons, ih, List.count_cons_self]
    · obtain ⟨piece, more, hr⟩ := List.exists_cons_of_ne_nil (splitOn_ne_nil sep r)
      rw [splitOn_cons_of_ne hb hr, List.count_cons_of_ne hb, ← ih, hr, List.length_cons,
        List.length_cons]

/-- An empty piece at the end adds a separator. -/
theorem join_concat_nil (sep : Text) {parts : List Text} (h : parts ≠ []) :
    join sep (parts ++ [[]]) = join sep parts ++ sep := by
  induction parts with
  | nil => exact absurd rfl h
  | cons a r ih =>
    cases r with
    | nil =>
      rw [List.singleton_append, join, List.intercalate_cons_cons, join,
        List.intercalate_singleton, List.intercalate_singleton, List.append_nil]
    | cons b r =>
      have hrest := ih (List.cons_ne_nil b r)
      rw [join, List.cons_append] at hrest
      rw [join, List.cons_append, List.cons_append, List.intercalate_cons_cons, hrest, join,
        join, List.intercalate_cons_cons, List.append_assoc, List.append_assoc, List.append_assoc]

/-- A byte that is not in the separator is in joined texts if it is in one of them. -/
theorem mem_join_iff {b : UInt8} {sep : Text} (hsep : b ∉ sep) (parts : List Text) :
    b ∈ join sep parts ↔ ∃ part ∈ parts, b ∈ part := by
  induction parts with
  | nil => simp [join]
  | cons part parts ih =>
    cases parts with
    | nil => simp [join]
    | cons next parts =>
      rw [join, List.intercalate_cons_cons, List.mem_append, List.mem_append, ← join, ih,
        List.exists_mem_cons_iff]
      simp [hsep]

/-- The first piece goes up to the first separator. -/
theorem head?_splitOn (sep : UInt8) (s : Text) :
    (splitOn sep s).head? = some (s.takeWhile (· != sep)) := by
  induction s with
  | nil => rfl
  | cons b r ih =>
    by_cases hb : b = sep
    · rw [hb, splitOn_cons_of_eq, List.takeWhile_cons_of_neg (by simp)]
      rfl
    · obtain ⟨piece, more, hr⟩ := List.exists_cons_of_ne_nil (splitOn_ne_nil sep r)
      rw [hr] at ih
      rw [splitOn_cons_of_ne hb hr, List.takeWhile_cons_of_pos (by simpa using hb)]
      exact congrArg (fun p => p.map (b :: ·)) ih

end Text

namespace Source

/-! ## From the start of a line to its end -/

/-- The last line is the one behind all line feeds. -/
theorem lineAt_length (content : Text) :
    lineAt content content.length = (breaks content).length + 1 := by
  rw [lineAt, List.take_length, length_breaks, Nat.add_comm]

/-- Where the number of the last line is no word, the content is line feeds only. -/
theorem eq_replicate_of_no_room {content : Text} (hfits : content.length < 2 ^ 32)
    (hroom : ¬ (breaks content).length + 1 < 2 ^ 32) :
    content = List.replicate (2 ^ 32 - 1) Cursor.lineFeed := by
  have hlast := lineAt_length content
  have hmost := lineAt_le content content.length
  exact ((lineAt_eq_succ_iff (by omega) content.length).1 (by omega)).1

/-- Behind a line feed at the end, and in an empty content, a line starts that holds nothing. -/
theorem startsLine_length {content : Text}
    (h : content = [] ∨ content.getLast? = some Cursor.lineFeed) :
    StartsLine content ((breaks content).length + 1) content.length := by
  refine ⟨?_, lineAt_length content⟩
  rcases h with rfl | hfeed
  · exact .inl rfl
  · obtain ⟨init, rfl⟩ := List.getLast?_eq_some_iff.1 hfeed
    exact .inr ⟨init.length, List.length_append, List.getElem?_concat_length⟩

theorem exists_startsLine {content : Text} {n : Nat} (hpos : 1 ≤ n)
    (hle : n ≤ (breaks content).length + 1) : ∃ s, StartsLine content n s := by
  obtain ⟨k, rfl⟩ := Nat.exists_eq_add_of_le' hpos
  cases k with
  | zero => exact ⟨0, startsLine_zero content⟩
  | succ k =>
    obtain ⟨p, hp, hline, -⟩ :=
      (getElem?_breaks content k _).1 (List.getElem?_eq_getElem (by omega))
    exact ⟨p + 1, .inr ⟨p, rfl, hp⟩, by rw [lineAt_succ hp, hline]⟩

namespace StartsLine

variable {content : Text} {n s : Nat}

theorem pos (h : StartsLine content n s) : 1 ≤ n := by
  rw [← h.line_eq]
  exact lineAt_pos content s

theorem le_length_breaks (h : StartsLine content n s) : n ≤ (breaks content).length + 1 := by
  rw [← h.line_eq, ← lineAt_length]
  exact lineAt_mono content h.inside

/-- **A line goes up to a line feed or to the end of the content.** -/
theorem exists_end (h : StartsLine content n s) :
    ∃ e, s ≤ e ∧ e ≤ content.length ∧ lineAt content e = n ∧
      (content[e]? = some Cursor.lineFeed ∨ e = content.length) ∧
      (content.drop s).takeWhile (· != Cursor.lineFeed) = (content.drop s).take (e - s) := by
  have hin := h.inside
  have hprefix := List.takeWhile_prefix (l := content.drop s) (· != Cursor.lineFeed)
  have hlen := hprefix.length_le
  have htake := List.prefix_iff_eq_take.1 hprefix
  rw [List.length_drop] at hlen
  have hnone : Cursor.lineFeed ∉ (content.drop s).takeWhile (· != Cursor.lineFeed) := by
    intro hmem
    simpa using List.mem_takeWhile_imp hmem
  have hstop := List.head?_dropWhile_not (· != Cursor.lineFeed) (content.drop s)
  have hbehind : (content.drop s).dropWhile (· != Cursor.lineFeed) =
      content.drop (s + ((content.drop s).takeWhile (· != Cursor.lineFeed)).length) := by
    rw [← List.drop_drop, Lexeme.drop_length_takeWhile]
  rw [hbehind, List.head?_drop] at hstop
  generalize (content.drop s).takeWhile (· != Cursor.lineFeed) = line at *
  refine ⟨s + line.length, Nat.le_add_right _ _, by omega, ?_, ?_, ?_⟩
  · rw [lineAt_add, ← htake, List.count_eq_zero.2 hnone, Nat.add_zero, h.line_eq]
  · cases hbyte : content[s + line.length]? with
    | none =>
      have hge := List.getElem?_eq_none_iff.1 hbyte
      exact .inr (by omega)
    | some b =>
      rw [hbyte] at hstop
      exact .inl (congrArg some (by simpa using hstop))
  · rwa [Nat.add_sub_cancel_left]

/-- The piece of the content that is line number `n`. -/
theorem getElem?_splitOn (h : StartsLine content n s) :
    (Text.splitOn Cursor.lineFeed content)[n - 1]? =
      some ((content.drop s).takeWhile (· != Cursor.lineFeed)) := by
  rw [← Text.head?_splitOn]
  rcases h.first with rfl | ⟨p, rfl, hp⟩
  · have hn : n = 1 := by rw [← h.line_eq, lineAt, List.take_zero, List.count_nil]
    rw [hn, List.drop_zero, Nat.sub_self, List.head?_eq_getElem?]
  · -- What stands before the line ends with a line feed and has `n - 1` pieces.
    have hlt : p < content.length := (List.getElem?_eq_some_iff.1 hp).1
    have hcut : content = content.take p ++ Cursor.lineFeed :: content.drop (p + 1) := by
      have hget := (List.getElem?_eq_some_iff.1 hp).2
      rw [← hget, ← List.drop_eq_getElem_cons hlt, List.take_append_drop]
    have hcount : (Text.splitOn Cursor.lineFeed (content.take p)).length = n - 1 := by
      have hline := h.line_eq
      rw [lineAt_succ hp, lineAt] at hline
      rw [Text.length_splitOn]
      omega
    nth_rewrite 1 [hcut]
    rw [Text.splitOn_append, List.getElem?_append_right (Nat.le_of_eq hcount), hcount,
      Nat.sub_self, List.head?_eq_getElem?]

end StartsLine

end Source

/-- One place comes before another: on an earlier line, or before it on the same line. -/
def LineCol.Before (p q : LineCol) : Prop :=
  p.line < q.line ∨ p.line = q.line ∧ p.col < q.col

namespace SourceFile

/-- The place of an offset. -/
def place (f : SourceFile) (off : UInt32) : LineCol := (f.resolve (.point f.id off)).1

/-- The texts of all lines. -/
def lines (f : SourceFile) : List Text :=
  (List.range f.lineCount.toNat).map fun i => f.line (UInt32.ofNat (i + 1))

section Fitting

variable {f : SourceFile} (hindex : f.breaks = Source.breaks f.content)
  (hfits : f.content.length < 2 ^ 32)
include hindex hfits

/-! ## The text of a line -/

theorem toNat_length_breaks :
    (UInt32.ofNat f.breaks.length).toNat = (Source.breaks f.content).length := by
  rw [hindex]
  refine Source.toNat_ofNat_of_inside hfits ?_
  rw [Source.length_breaks]
  exact List.count_le_length

omit hfits in
theorem toNat_length_breaks_succ (hroom : (Source.breaks f.content).length + 1 < 2 ^ 32) :
    (UInt32.ofNat f.breaks.length + 1).toNat = (Source.breaks f.content).length + 1 := by
  rw [show (1 : UInt32) = UInt32.ofNat 1 from rfl, ← UInt32.ofNat_add, hindex]
  exact UInt32.toNat_ofNat_of_lt' hroom

omit hfits in
/-- A line starts behind the entry of the line before it. -/
theorem lineStart_eq {n : UInt32} {s : Nat} (hs : Source.StartsLine f.content n.toNat s) :
    (if n > 1 then f.breaks.getD (n.toNat - 2) 0 + 1 else 0) = UInt32.ofNat s := by
  have hpos := hs.pos
  split
  · rename_i hn
    replace hn : 1 < n.toNat := UInt32.lt_iff_toNat_lt.1 hn
    rcases hs.first with rfl | ⟨p, rfl, hp⟩
    · have hone := (Source.startsLine_zero f.content).line_eq.symm.trans hs.line_eq
      omega
    · have hpline : lineAt f.content p = n.toNat - 2 + 1 := by
        have hsucc := hs.line_eq
        rw [lineAt_succ hp] at hsucc
        omega
      have hentry := (Source.getElem?_breaks f.content (n.toNat - 2) _).2 ⟨p, hp, hpline, rfl⟩
      rw [hindex, List.getD_eq_getElem?_getD, hentry, Option.getD_some, UInt32.ofNat_add]
      rfl
  · rename_i hn
    have hone : n.toNat = 1 := by
      have hnot := mt UInt32.lt_iff_toNat_lt.2 hn
      rw [show (1 : UInt32).toNat = 1 from rfl] at hnot
      omega
    rw [hone] at hs
    rw [hs.unique (Source.startsLine_zero f.content)]
    rfl

/-- A line ends at its entry, and the last one at the end of the content. -/
theorem lineStop_eq {n : UInt32} {e : Nat} (hpos : 1 ≤ n.toNat)
    (hline : lineAt f.content e = n.toNat)
    (hend : f.content[e]? = some Cursor.lineFeed ∨ e = f.content.length) :
    (if n ≤ UInt32.ofNat f.breaks.length then f.breaks.getD (n.toNat - 1) 0
      else UInt32.ofNat f.content.length) = UInt32.ofNat e := by
  have hcount := toNat_length_breaks hindex hfits
  have hlast := Source.lineAt_length f.content
  split
  · rename_i hn
    rw [UInt32.le_iff_toNat_le, hcount] at hn
    rcases hend with hfeed | rfl
    · have hentry := (Source.getElem?_breaks f.content (n.toNat - 1) _).2
        ⟨e, hfeed, by omega, rfl⟩
      rw [hindex, List.getD_eq_getElem?_getD, hentry, Option.getD_some]
    · omega
  · rename_i hn
    rw [UInt32.le_iff_toNat_le, hcount] at hn
    rcases hend with hfeed | rfl
    · have hlt := (List.getElem?_eq_some_iff.1 hfeed).1
      have hmono : lineAt f.content (e + 1) ≤ lineAt f.content f.content.length :=
        lineAt_mono f.content hlt
      rw [lineAt_succ hfeed] at hmono
      omega
    · rfl

/-- The bounds of a line are its start and its end, if the number behind the last line feed is
a word. -/
theorem lineBounds?_of_startsLine (hroom : (Source.breaks f.content).length + 1 < 2 ^ 32)
    {n : UInt32} {s e : Nat} (hs : Source.StartsLine f.content n.toNat s) (hse : s ≤ e)
    (hin : e ≤ f.content.length) (hline : lineAt f.content e = n.toNat)
    (hend : f.content[e]? = some Cursor.lineFeed ∨ e = f.content.length) :
    f.lineBounds? n =
      if s < f.content.length then some (UInt32.ofNat s, UInt32.ofNat e) else none := by
  have hpos := hs.pos
  have hle := hs.le_length_breaks
  have hinside : ¬ (n = 0 ∨ n > UInt32.ofNat f.breaks.length + 1) := by
    have hcount := toNat_length_breaks_succ hindex hroom
    rintro (rfl | hgt)
    · exact absurd hpos (by decide)
    · have hlt := UInt32.lt_iff_toNat_lt.1 hgt
      omega
  have hsize : UInt32.ofNat s ≥ UInt32.ofNat f.content.length ↔ ¬ s < f.content.length := by
    rw [ge_iff_le, UInt32.le_iff_toNat_le, Source.toNat_ofNat_of_inside hfits (Nat.le_refl _),
      Source.toNat_ofNat_of_inside hfits (by omega), Nat.not_lt]
  rw [lineBounds?]
  simp only [lineStart_eq hindex hs, lineStop_eq hindex hfits hpos hline hend, if_neg hinside,
    hsize]
  by_cases hlt : s < f.content.length
  · rw [if_neg (not_not.2 hlt), if_pos hlt]
  · rw [if_pos hlt, if_neg hlt]

/-- **The text of a line** is what stands from its start up to a line feed or to the end. -/
theorem line_of_startsLine {n : UInt32} {s : Nat}
    (hs : Source.StartsLine f.content n.toNat s) :
    f.line n = (f.content.drop s).takeWhile (· != Cursor.lineFeed) := by
  by_cases hroom : (Source.breaks f.content).length + 1 < 2 ^ 32
  · obtain ⟨e, hse, hin, hline, hend, htext⟩ := hs.exists_end
    rw [line, lineBounds?_of_startsLine hindex hfits hroom hs hse hin hline hend, htext]
    by_cases hlt : s < f.content.length
    · rw [if_pos hlt]
      dsimp only
      rw [Span.slice, Source.toNat_ofNat_of_inside hfits hin,
        Source.toNat_ofNat_of_inside hfits (Nat.le_of_lt hlt)]
    · rw [if_neg hlt, List.drop_eq_nil_of_le (Nat.le_of_not_lt hlt), List.take_nil]
  · -- The bound on line numbers wraps to zero and all lines are refused, but they are all empty.
    have hcontent := Source.eq_replicate_of_no_room hfits hroom
    have hcount : (UInt32.ofNat f.breaks.length + 1) = 0 := by
      rw [hindex, Source.length_breaks, hcontent, List.count_replicate_self]
      rfl
    have hpos : n > 0 := UInt32.lt_iff_toNat_lt.2 hs.pos
    have hnone : f.lineBounds? n = none := by
      rw [lineBounds?]
      exact if_pos (.inr (hcount.symm ▸ hpos))
    rw [line, hnone, hcontent, List.drop_replicate, List.takeWhile_replicate, if_neg (by simp)]

/-! ## All lines -/

/-- The content has no line behind its last line feed. -/
theorem toNat_lineCount : f.lineCount.toNat =
    if f.content = [] ∨ f.content.getLast? = some Cursor.lineFeed then
      (Source.breaks f.content).length
    else (Source.breaks f.content).length + 1 := by
  have hcount := toNat_length_breaks hindex hfits
  rw [lineCount]
  cases hlast : f.content.getLast? with
  | none =>
    have hnil := List.getLast?_eq_none_iff.1 hlast
    rw [if_pos (.inl hnil), hnil]
    rfl
  | some b =>
    have hsolid : f.content ≠ [] := by
      intro hnil
      rw [hnil] at hlast
      cases hlast
    by_cases hb : b = Cursor.lineFeed
    · rw [hb, if_pos (.inr rfl), ← hcount]
      exact congrArg UInt32.toNat (if_pos rfl)
    · -- The last byte is no line feed, so there are fewer line feeds than bytes.
      have hless : (Source.breaks f.content).length ≠ f.content.length := by
        rw [Source.length_breaks]
        intro hall
        exact hb (List.count_eq_length.1 hall b (List.mem_of_getLast? hlast)).symm
      have hmost := List.count_le_length (a := Cursor.lineFeed) (l := f.content)
      rw [← Source.length_breaks] at hmost
      rw [if_neg (by simp [hsolid, hb])]
      dsimp only
      rw [if_neg (show ¬ b = 0x0A from hb), toNat_length_breaks_succ hindex (by omega)]

/-- The lines are the first pieces between line feeds. -/
theorem lines_eq_take :
    f.lines = (Text.splitOn Cursor.lineFeed f.content).take f.lineCount.toNat := by
  have hcount := toNat_lineCount hindex hfits
  have hword := f.lineCount.toNat_lt
  rw [lines]
  refine List.ext_getElem? fun i => ?_
  rw [List.getElem?_map, List.getElem?_take]
  by_cases hi : i < f.lineCount.toNat
  · obtain ⟨s, hs⟩ : ∃ s, Source.StartsLine f.content (i + 1) s :=
      Source.exists_startsLine (Nat.succ_pos i) (by split at hcount <;> omega)
    have hnumber : (UInt32.ofNat (i + 1)).toNat = i + 1 :=
      UInt32.toNat_ofNat_of_lt' (by rw [show UInt32.size = 2 ^ 32 from rfl]; omega)
    rw [List.getElem?_range hi, Option.map_some, if_pos hi,
      line_of_startsLine hindex hfits (by rw [hnumber]; exact hs)]
    exact hs.getElem?_splitOn.symm
  · rw [if_neg hi, List.getElem?_eq_none (by rw [List.length_range]; omega)]
    rfl

/-- **The lines are the pieces between line feeds**, except for the empty one behind a line
feed at the end and the one of an empty content. -/
theorem splitOn_eq_lines : Text.splitOn Cursor.lineFeed f.content =
    f.lines ++ if f.content = [] ∨ f.content.getLast? = some Cursor.lineFeed then [[]] else [] := by
  have hcount := toNat_lineCount hindex hfits
  have hpieces := Text.length_splitOn Cursor.lineFeed f.content
  rw [← Source.length_breaks] at hpieces
  rw [lines_eq_take hindex hfits]
  nth_rewrite 1 [← List.take_append_drop f.lineCount.toNat (Text.splitOn _ _)]
  refine congrArg _ ?_
  split at hcount
  · rename_i hends
    have hlast := (Source.startsLine_length hends).getElem?_splitOn
    rw [Nat.add_sub_cancel, List.drop_length] at hlast
    rw [if_pos hends, hcount, List.drop_eq_getElem_cons (by omega),
      (List.getElem?_eq_some_iff.1 hlast).2, List.drop_eq_nil_of_le (by omega)]
    rfl
  · rename_i hends
    rw [if_neg hends, hcount, List.drop_eq_nil_of_le (by omega)]

end Fitting

section Short

variable {f : SourceFile} (hindex : f.breaks = Source.breaks f.content)
  (hshort : f.content.length < 2 ^ 32 - 1)
include hindex hshort

/-- A line number beyond the line feeds and one more has no bounds. -/
theorem lineBounds?_of_far {n : UInt32}
    (hfar : n = 0 ∨ (Source.breaks f.content).length + 1 < n.toNat) : f.lineBounds? n = none := by
  rw [lineBounds?]
  refine if_pos (hfar.imp_right fun hlt => UInt32.lt_iff_toNat_lt.2 ?_)
  rwa [toNat_length_breaks_succ hindex (Source.length_breaks_succ_lt hshort)]

theorem line_eq_nil_of_far {n : UInt32}
    (hfar : n = 0 ∨ (Source.breaks f.content).length + 1 < n.toNat) : f.line n = [] := by
  rw [line, lineBounds?_of_far hindex hshort hfar]

/-- The text behind the last line feed is empty where it is no line. -/
theorem line_eq_nil_of_lineCount_lt {n : UInt32} (hn : n = 0 ∨ f.lineCount < n) :
    f.line n = [] := by
  by_cases hfar : n = 0 ∨ (Source.breaks f.content).length + 1 < n.toNat
  · exact line_eq_nil_of_far hindex hshort hfar
  have hlt := UInt32.lt_iff_toNat_lt.1 (hn.resolve_left fun h => hfar (.inl h))
  have hle : n.toNat ≤ (Source.breaks f.content).length + 1 :=
    Nat.le_of_not_lt fun h => hfar (.inr h)
  rw [toNat_lineCount hindex (by omega)] at hlt
  split at hlt
  · rename_i hends
    have hstarts := Source.startsLine_length hends
    rw [← (by omega : n.toNat = (Source.breaks f.content).length + 1)] at hstarts
    rw [line_of_startsLine hindex (by omega) hstarts, List.drop_length]
    rfl
  · omega

theorem splitOn_content : Text.splitOn Cursor.lineFeed f.content =
    f.lines ++ if f.content = [] ∨ f.content.getLast? = some Cursor.lineFeed then [[]] else [] :=
  splitOn_eq_lines hindex (by omega)

/-- **The content is its lines** with a line feed between neighbours, and one more at the end
if it ends with one. -/
theorem join_lines : Text.join [Cursor.lineFeed] f.lines ++
    (if f.content.getLast? = some Cursor.lineFeed then [Cursor.lineFeed] else []) = f.content := by
  have hsplit := splitOn_content hindex hshort
  have hjoin := Text.join_splitOn Cursor.lineFeed f.content
  rw [hsplit] at hjoin
  by_cases hfeed : f.content.getLast? = some Cursor.lineFeed
  · rw [if_pos (.inr hfeed)] at hjoin hsplit
    rw [if_pos hfeed]
    have hlines : f.lines ≠ [] := by
      intro hnil
      rw [hnil] at hjoin
      rw [← hjoin] at hfeed
      cases hfeed
    rwa [Text.join_concat_nil _ hlines] at hjoin
  · rw [if_neg hfeed, List.append_nil]
    by_cases hnil : f.content = []
    · have hcount := toNat_lineCount hindex (by omega)
      rw [if_pos (.inl hnil), Source.length_breaks, hnil, List.count_nil] at hcount
      rw [lines, hcount, hnil]
      rfl
    · rwa [if_neg (by simp [hnil, hfeed]), List.append_nil] at hjoin

theorem lineFeed_not_mem_line (n : UInt32) : Cursor.lineFeed ∉ f.line n := by
  by_cases hfar : n = 0 ∨ (Source.breaks f.content).length + 1 < n.toNat
  · rw [line_eq_nil_of_far hindex hshort hfar]
    exact List.not_mem_nil
  · rw [not_or, Nat.not_lt] at hfar
    have hpos : 1 ≤ n.toNat := by
      rw [Nat.one_le_iff_ne_zero]
      exact fun h => hfar.1 (UInt32.toNat_inj.1 h)
    obtain ⟨s, hs⟩ := Source.exists_startsLine hpos hfar.2
    rw [line_of_startsLine hindex (by omega) hs]
    intro hmem
    simpa using List.mem_takeWhile_imp hmem

/-! ## Places -/

/-- The place of an offset, by the start of its line. -/
theorem exists_place {off : UInt32} (hoff : off.toNat ≤ f.content.length) :
    ∃ s ≤ off.toNat, Source.StartsLine f.content (f.place off).line.toNat s ∧
      (f.place off).line.toNat = lineAt f.content off.toNat ∧
      off.toNat + 1 = s + (f.place off).col.toNat := by
  obtain ⟨s, hle, hs, hline, hcol⟩ := Source.exists_lineCol_breaks hshort hoff
  have hplace : f.place off = Source.lineCol (Source.breaks f.content) off := by
    rw [place, resolve, hindex]
    rfl
  rw [hplace]
  exact ⟨s, hle, hline.symm ▸ hs, hline, by omega⟩

/-- **Places grow with offsets.** -/
theorem place_before {a b : UInt32} (hab : a < b) (hb : b.toNat ≤ f.content.length) :
    (f.place a).Before (f.place b) := by
  have hlt := UInt32.lt_iff_toNat_lt.1 hab
  have ha : a.toNat ≤ f.content.length := by omega
  obtain ⟨s, -, hs, hsline, hscol⟩ := exists_place hindex hshort ha
  obtain ⟨t, -, ht, htline, htcol⟩ := exists_place hindex hshort hb
  have hmono := lineAt_mono f.content (Nat.le_of_lt hlt)
  rw [← hsline, ← htline] at hmono
  rcases Nat.lt_or_eq_of_le hmono with hless | heq
  · exact .inl (UInt32.lt_iff_toNat_lt.2 hless)
  · -- On one line both columns are counted from the same start.
    obtain rfl := hs.unique (heq ▸ ht)
    exact .inr ⟨UInt32.toNat_inj.1 heq, UInt32.lt_iff_toNat_lt.2 (by omega)⟩

/-- **A byte stands at its column in the text of its line.** -/
theorem getElem?_line_place {off : UInt32} {b : UInt8} (hbyte : f.content[off.toNat]? = some b)
    (hb : b ≠ Cursor.lineFeed) :
    (f.line (f.place off).line)[(f.place off).col.toNat - 1]? = some b := by
  have hlt := (List.getElem?_eq_some_iff.1 hbyte).1
  obtain ⟨s, hle, hs, hline, hcol⟩ := exists_place hindex hshort (Nat.le_of_lt hlt)
  obtain ⟨e, -, -, heline, hend, htext⟩ := hs.exists_end
  -- The end of the line is no earlier: a line feed before the byte would end its line.
  have hbefore : off.toNat < e := by
    rcases hend with hfeed | rfl
    · by_contra hge
      rcases Nat.lt_or_eq_of_le (Nat.le_of_not_lt hge) with hless | rfl
      · have hmono := lineAt_mono f.content (Nat.succ_le_of_lt hless)
        rw [Nat.succ_eq_add_one, lineAt_succ hfeed, heline, hline] at hmono
        omega
      · exact hb (Option.some.inj (hbyte.symm.trans hfeed))
    · exact hlt
  have hcolumn : (f.place off).col.toNat - 1 = off.toNat - s := by omega
  rw [line_of_startsLine hindex (by omega) hs, htext, hcolumn,
    List.getElem?_take_of_lt (by omega), List.getElem?_drop, Nat.add_sub_cancel' hle, hbyte]

end Short

end SourceFile

/-- **Offsets, places and lines fit together.**  In every file of a file set that is shorter
than `2 ^ 32 - 1` bytes, for the offsets from 0 to the end of the content and for all line
numbers:

* the place grows with the offset;
* the offset lies as far behind the start of its line as its column says, and a line starts at
  0 or behind a line feed;
* the lines hold no line feed, and with one between neighbours, and one more at the end if the
  content ends with one, they are the content;
* there is no text for a line number below one or above the number of lines;
* every byte but a line feed stands at its column in the text of its line. -/
theorem FileSet.Made.places_fit_lines {fs : FileSet} (hfs : fs.Made) (id : FileId)
    {f : SourceFile} (hf : fs.get? id = some f) (hshort : f.content.length < 2 ^ 32 - 1) :
    (∀ a b : UInt32, a < b → b.toNat ≤ f.content.length → (f.place a).Before (f.place b)) ∧
      (∀ off : UInt32, off.toNat ≤ f.content.length →
        ∃ s ≤ off.toNat, Source.StartsLine f.content (f.place off).line.toNat s ∧
          off.toNat = s + (f.place off).col.toNat - 1 ∧ 1 ≤ (f.place off).col.toNat) ∧
      (∀ n, Cursor.lineFeed ∉ f.line n) ∧
      Text.splitOn Cursor.lineFeed f.content = f.lines ++
        (if f.content = [] ∨ f.content.getLast? = some Cursor.lineFeed then [[]] else []) ∧
      Text.join [Cursor.lineFeed] f.lines ++
        (if f.content.getLast? = some Cursor.lineFeed then [Cursor.lineFeed] else []) =
          f.content ∧
      (∀ n, n = 0 ∨ f.lineCount < n → f.line n = []) ∧
      ∀ (off : UInt32) (b : UInt8), f.content[off.toNat]? = some b → b ≠ Cursor.lineFeed →
        (f.line (f.place off).line)[(f.place off).col.toNat - 1]? = some b := by
  obtain ⟨-, hindex⟩ := hfs.indexed id f hf
  refine ⟨fun a b => SourceFile.place_before hindex hshort, fun off hoff => ?_,
    SourceFile.lineFeed_not_mem_line hindex hshort, SourceFile.splitOn_content hindex hshort,
    SourceFile.join_lines hindex hshort,
    fun n => SourceFile.line_eq_nil_of_lineCount_lt hindex hshort,
    fun off b => SourceFile.getElem?_line_place hindex hshort⟩
  obtain ⟨s, hle, hs, -, hcol⟩ := SourceFile.exists_place hindex hshort hoff
  exact ⟨s, hle, hs, by omega, by omega⟩

/-- A content with an empty line and a line feed at its end: the places at a line feed and
behind it, the lines joined, and a byte on the last line. -/
theorem FileSet.Made.places_fit_lines_blank :
    ∃ f, (({} : FileSet).addVirtual "a" "ab\n\nc\n").get? 0 = some f ∧
      f.content.length < 2 ^ 32 - 1 ∧ (f.place 2).Before (f.place 3) ∧
      Text.join [Cursor.lineFeed] f.lines ++ [Cursor.lineFeed] = "ab\n\nc\n" ∧
      (f.line (f.place 4).line)[(f.place 4).col.toNat - 1]? = some 0x63 := by
  have hmade := (FileSet.Made.empty []).add "a" "ab\n\nc\n" .isVirtual
  refine ⟨_, rfl, by decide, ?_⟩
  obtain ⟨hbefore, -, -, -, hjoin, -, hbyte⟩ :=
    hmade.places_fit_lines 0 rfl (by decide)
  exact ⟨hbefore 2 3 (by decide) (by decide), hjoin, hbyte 4 0x63 (by decide) (by decide)⟩

end Tarjuman
