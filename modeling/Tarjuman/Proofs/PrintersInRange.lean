/-
# The printers stay in range

Diagnostics are printed with every access checked (`Tarjuman.Checked`), and whatever their
spans are, no check fails.  Each checked step is shown to give what the plain one gives:

* the search for a line reads between its two ends (`Checked.breaksBefore_eq`), and the place
  of an offset is found in any line index (`Checked.lineCol_eq`);
* the text of a line is cut inside of its content (`Checked.line_eq`), which takes an index
  that is made of the content and a content short enough for words;
* both columns of a marker are moved into the line, so the cuts between them hold
  (`Checked.snippet_eq`).

Texts may be as wide as they like, as long as no width is negative.

The loop over line numbers is followed for any number of rounds (`Checked.numberedUpTo_eq`).  It
goes on forever only in a file that is nothing but line feeds and holds as many of them as it may:
the last line has the last word as its number, and no number is behind it
(`Checked.numberedUpTo_last`).
-/

import Mathlib.Algebra.Order.Ring.Int
import Mathlib.Data.FinEnum
import Mathlib.Data.List.GetD
import Mathlib.Data.Nat.Cast.Order.Ring
import Mathlib.Data.UInt
import Tarjuman.Diagnostic.Checked
import Tarjuman.Proofs.SourceLines

namespace Tarjuman

open Cursor (lineFeed)

namespace Checked

/-! ## Checked steps that succeed -/

@[simp]
theorem ok_bind {α β : Type} (a : α) (f : α → Except Fault β) : (Except.ok a >>= f) = f a := rfl

@[simp]
theorem error_bind {α β : Type} (e : Fault) (f : α → Except Fault β) :
    (Except.error e >>= f) = Except.error e := rfl

@[simp]
theorem pure_eq_ok {α : Type} (a : α) : (pure a : Except Fault α) = Except.ok a := rfl

@[simp]
theorem map_ok {α β : Type} (f : α → β) (a : α) :
    (f <$> Except.ok a : Except Fault β) = Except.ok (f a) := rfl

theorem mapM_eq_ok {α β : Type} {f : α → Except Fault β} {g : α → β} {xs : List α}
    (h : ∀ x ∈ xs, f x = .ok (g x)) : xs.mapM f = .ok (xs.map g) := by
  induction xs with
  | nil => rfl
  | cons x xs ih =>
    obtain ⟨hx, hxs⟩ := List.forall_mem_cons.1 h
    rw [List.mapM_cons, hx, ok_bind, ih hxs, ok_bind, pure_eq_ok, List.map_cons]

/-- Where every entry succeeds or fails in one way, so do all together. -/
theorem mapM_cases {α β : Type} {f : α → Except Fault β} {g : α → β} {e : Fault} {xs : List α}
    (h : ∀ x ∈ xs, f x = .ok (g x) ∨ f x = .error e) :
    xs.mapM f = .ok (xs.map g) ∨ xs.mapM f = .error e := by
  induction xs with
  | nil => exact .inl rfl
  | cons x xs ih =>
    obtain ⟨hx, hxs⟩ := List.forall_mem_cons.1 h
    rw [List.mapM_cons]
    rcases hx with hx | hx
    · rw [hx, ok_bind]
      rcases ih hxs with hrest | hrest
      · exact .inl (by rw [hrest, ok_bind, pure_eq_ok, List.map_cons])
      · exact .inr (by rw [hrest, error_bind])
    · exact .inr (by rw [hx, error_bind])

/-- Where all succeed, every entry does. -/
theorem exists_of_mapM_eq_ok {α β : Type} {f : α → Except Fault β} {xs : List α} {ys : List β}
    (h : xs.mapM f = .ok ys) : ∀ x ∈ xs, ∃ y, f x = .ok y := by
  induction xs generalizing ys with
  | nil => exact List.forall_mem_nil _
  | cons x xs ih =>
    rw [List.mapM_cons] at h
    cases hx : f x with
    | error e => rw [hx, error_bind] at h; cases h
    | ok y =>
      rw [hx, ok_bind] at h
      cases hrest : xs.mapM f with
      | error e => rw [hrest, error_bind] at h; cases h
      | ok rest => exact List.forall_mem_cons.2 ⟨⟨y, hx⟩, ih hrest⟩

theorem read_eq {α : Type} {xs : List α} {i : Nat} (h : i < xs.length) (d : α) :
    read xs i = .ok (xs.getD i d) := by
  rw [read, if_neg (Int.not_lt.2 (Int.natCast_nonneg i)), Int.toNat_natCast,
    List.getElem?_eq_getElem h, List.getD_eq_getElem _ _ h]

theorem cut_eq {α : Type} {xs : List α} {start stop : Nat} (h : start ≤ stop)
    (hin : stop ≤ xs.length) : cut xs start stop = .ok ((xs.take stop).drop start) := by
  rw [cut, if_pos ⟨Int.natCast_nonneg _, Int.ofNat_le.2 h, Int.ofNat_le.2 hin⟩,
    Int.toNat_natCast, Int.toNat_natCast]

theorem cut_zero {α : Type} {xs : List α} {stop : Nat} (hin : stop ≤ xs.length) :
    cut xs 0 stop = .ok (xs.take stop) :=
  cut_eq (Nat.zero_le stop) hin

theorem copies_eq {n : Int} (h : 0 ≤ n) (b : UInt8) :
    copies n b = .ok (List.replicate n.toNat b) := by
  rw [copies, if_neg (Int.not_lt.2 h)]

/-! ## Places -/

/-- **The search reads between its ends**, so it stays in an index that both ends lie in. -/
theorem breaksBefore_eq {breaks : List UInt32} {off : UInt32} {lo hi : Nat}
    (hin : hi ≤ breaks.length) :
    breaksBefore breaks off lo hi = .ok (Source.breaksBefore breaks off lo hi) := by
  fun_induction Source.breaksBefore breaks off lo hi with
  | case1 lo hi hlt mid hbelow ih =>
    rw [breaksBefore, if_pos hlt]
    dsimp only
    rw [read_eq (show mid < breaks.length by omega) 0, ok_bind, if_pos hbelow, ih hin]
  | case2 lo hi hlt mid hbelow ih =>
    rw [breaksBefore, if_pos hlt]
    dsimp only
    rw [read_eq (show mid < breaks.length by omega) 0, ok_bind, if_neg hbelow, ih (by omega)]
  | case3 lo hi hge =>
    rw [breaksBefore, if_neg hge, pure_eq_ok]

theorem breaksBefore_le (breaks : List UInt32) (off : UInt32) {lo hi : Nat} (h : lo ≤ hi) :
    Source.breaksBefore breaks off lo hi ≤ hi := by
  fun_induction Source.breaksBefore breaks off lo hi with
  | case1 lo hi hlt mid hbelow ih => exact ih (by omega)
  | case2 lo hi hlt mid hbelow ih => exact Nat.le_trans (ih (by omega)) (by omega)
  | case3 lo hi hge => exact h

theorem lineCol_eq (breaks : List UInt32) (off : UInt32) :
    lineCol breaks off = .ok (Source.lineCol breaks off) := by
  have hle := breaksBefore_le breaks off (Nat.zero_le breaks.length)
  rw [lineCol, breaksBefore_eq (Nat.le_refl _), ok_bind, Source.lineCol]
  dsimp only
  generalize Source.breaksBefore breaks off 0 breaks.length = before at *
  by_cases hzero : before = 0
  · simp [hzero]
  · have hread := read_eq (show before - 1 < breaks.length by omega) 0
    rw [show ((before - 1 : Nat) : Int) = (before : Int) - 1 by omega] at hread
    simp [hzero, hread]

/-- The file of a span, if there is a set and it has that file. -/
def fileOf (fs : Option FileSet) (span : Span) : Option SourceFile :=
  fs.bind (·.get? span.file)

section Placed

variable {fs : Option FileSet} {span : Span} {f : SourceFile} (hf : fileOf fs span = some f)
include hf

theorem file_eq : file fs span.file = .ok f := by
  cases fs with
  | none => cases hf
  | some s =>
    have hget : s.files.toList[span.file.toNat]? = some f := by
      rw [Array.getElem?_toList]
      exact hf
    rw [file, read, if_neg (Int.not_lt.2 (Int.natCast_nonneg _)), Int.toNat_natCast]
    dsimp only [Option.elim]
    rw [hget]

theorem resolve_eq : resolve fs span = .ok (f.resolve span) := by
  simp only [resolve, file_eq hf, ok_bind, lineCol_eq, pure_eq_ok, SourceFile.resolve]

end Placed

theorem any_has_iff (fs : Option FileSet) (span : Span) :
    fs.any (·.has span.file) = (fileOf fs span).isSome := by
  cases fs with
  | none => rfl
  | some s =>
    rw [Bool.eq_iff_iff, fileOf, Option.bind_some, FileSet.get?, isSome_getElem?]
    exact decide_eq_true_iff

theorem start?_eq (fs : Option FileSet) (span : Span) :
    start? fs span = .ok ((fileOf fs span).map fun f => (f, (f.resolve span).1)) := by
  rw [start?, any_has_iff]
  cases hf : fileOf fs span with
  | none => rfl
  | some f => simp only [Option.isSome_some, if_true, file_eq hf, resolve_eq hf, ok_bind,
      pure_eq_ok, Option.map_some]

theorem names_eq (s : Severity) : names s = .ok (s.name, s.label) := by
  obtain ⟨level⟩ := s
  revert level
  decide +kernel

/-! ## Lines -/

theorem one_le_toNat {n : UInt32} (h : n ≠ 0) : 1 ≤ n.toNat :=
  Nat.one_le_iff_ne_zero.2 fun hzero => h (UInt32.toNat_inj.1 hzero)

theorem lineStart_eq {f : SourceFile} {n : UInt32} (hle : n.toNat ≤ f.breaks.length + 1) :
    lineStart f n = .ok (if n > 1 then f.breaks.getD (n.toNat - 2) 0 + 1 else 0) := by
  rw [lineStart]
  split
  · rename_i hn
    have hlow : (2 : UInt32).toNat ≤ n.toNat := UInt32.lt_iff_toNat_lt.1 hn
    have hword : (n - 2).toNat = n.toNat - 2 :=
      UInt32.toNat_sub_of_le _ _ (UInt32.le_iff_toNat_le.2 hlow)
    rw [show (2 : UInt32).toNat = 2 from rfl] at hlow
    rw [hword, read_eq (by omega) 0, map_ok]
  · rfl

section Short

variable {f : SourceFile} (hindex : f.breaks = Source.breaks f.content)
  (hshort : f.content.length < 2 ^ 32 - 1)
include hindex hshort

theorem lineStop_eq {n : UInt32} (hpos : 1 ≤ n.toNat) :
    lineStop f n = .ok (if n ≤ UInt32.ofNat f.breaks.length then f.breaks.getD (n.toNat - 1) 0
      else UInt32.ofNat f.content.length) := by
  rw [lineStop]
  split
  · rename_i hn
    have hword : (n - 1).toNat = n.toNat - 1 :=
      UInt32.toNat_sub_of_le _ _ (UInt32.le_iff_toNat_le.2 hpos)
    rw [UInt32.le_iff_toNat_le, SourceFile.toNat_length_breaks hindex (by omega), ← hindex] at hn
    rw [hword, read_eq (by omega) 0]
  · rfl

theorem lineBounds?_eq (n : UInt32) : lineBounds? f n = .ok (f.lineBounds? n) := by
  rw [lineBounds?, SourceFile.lineBounds?]
  dsimp only
  by_cases hfar : n = 0 ∨ n > UInt32.ofNat f.breaks.length + 1
  · rw [if_pos hfar, if_pos hfar, pure_eq_ok]
  · have hle : n.toNat ≤ f.breaks.length + 1 := by
      have hsucc :=
        SourceFile.toNat_length_breaks_succ hindex (Source.length_breaks_succ_lt hshort)
      rw [hindex, ← hsucc, ← UInt32.le_iff_toNat_le]
      exact UInt32.not_lt.1 fun h => hfar (.inr h)
    have hpos := one_le_toNat fun h => hfar (.inl h)
    rw [if_neg hfar, if_neg hfar, lineStart_eq hle, ok_bind, lineStop_eq hindex hshort hpos,
      ok_bind, pure_eq_ok]

/-- The bounds of a line lie in the content, the first before the second. -/
theorem bounds_inside {n a b : UInt32} (h : f.lineBounds? n = some (a, b)) :
    a.toNat ≤ b.toNat ∧ b.toNat ≤ f.content.length := by
  by_cases hfar : n = 0 ∨ (Source.breaks f.content).length + 1 < n.toNat
  · rw [SourceFile.lineBounds?_of_far hindex hshort hfar] at h
    cases h
  · have hpos := one_le_toNat fun h => hfar (.inl h)
    obtain ⟨s, hs⟩ := Source.exists_startsLine hpos (Nat.le_of_not_lt fun h => hfar (.inr h))
    obtain ⟨e, hse, hin, hline, hend, -⟩ := hs.exists_end
    rw [SourceFile.lineBounds?_of_startsLine hindex (by omega)
      (Source.length_breaks_succ_lt hshort) hs hse hin hline hend] at h
    split at h
    · obtain ⟨rfl, rfl⟩ := Prod.mk.inj (Option.some.inj h)
      rw [Source.toNat_ofNat_of_le hshort (by omega), Source.toNat_ofNat_of_le hshort (by omega)]
      exact ⟨hse, hin⟩
    · cases h

/-- **The text of any line is cut inside of the content.** -/
theorem line_eq (n : UInt32) : line f n = .ok (f.line n) := by
  rw [line, lineBounds?_eq hindex hshort, ok_bind, SourceFile.line]
  cases hbounds : f.lineBounds? n with
  | none => rfl
  | some bounds =>
    obtain ⟨hle, hin⟩ := bounds_inside hindex hshort hbounds
    dsimp only
    rw [cut_eq hle hin, Span.slice, List.drop_take]

/-! ## Snippets -/

theorem numbered_eq (o : Pretty.Options) (gutter : Nat) (n : UInt32) :
    numbered o f gutter n = .ok (Pretty.numbered o f gutter n.toNat) := by
  rw [numbered, line_eq hindex hshort, ok_bind, Pretty.numbered, UInt32.ofNat_toNat, pure_eq_ok]

/-- **The loop over line numbers** up to a number that is not the last word gives all lines if
there are rounds enough, and never anything else. -/
theorem numberedUpTo_eq (o : Pretty.Options) (gutter : Nat) {last : UInt32}
    (hlast : last.toNat + 1 < 2 ^ 32) (rounds : Nat) (n : UInt32) :
    numberedUpTo o f gutter last rounds n =
      if last.toNat + 1 - n.toNat < rounds then
        .ok ((List.range' n.toNat (last.toNat + 1 - n.toNat)).flatMap (Pretty.numbered o f gutter))
      else .error .unfinished := by
  induction rounds generalizing n with
  | zero => rfl
  | succ rounds ih =>
    rw [numberedUpTo]
    by_cases hn : n ≤ last
    · have hle := UInt32.le_iff_toNat_le.1 hn
      have hnext : (n + 1).toNat = n.toNat + 1 := by
        rw [UInt32.toNat_add]
        exact Nat.mod_eq_of_lt (by simp; omega)
      have hleft : last.toNat + 1 - n.toNat = last.toNat + 1 - (n + 1).toNat + 1 := by omega
      rw [if_pos hn, numbered_eq hindex hshort, ok_bind, ih, hleft]
      by_cases hrounds : last.toNat + 1 - (n + 1).toNat < rounds
      · rw [if_pos hrounds, if_pos (by omega), ok_bind, List.range'_succ, List.flatMap_cons, hnext,
          pure_eq_ok]
      · rw [if_neg hrounds, if_neg (by omega), error_bind]
    · have hgt : last.toNat < n.toNat := UInt32.lt_iff_toNat_lt.1 (UInt32.not_le.1 hn)
      rw [if_neg hn, Nat.sub_eq_zero_of_le hgt, if_pos (Nat.succ_pos rounds)]
      rfl

/-- No word is behind the last one, and the loop up to it does not end. -/
theorem numberedUpTo_last (o : Pretty.Options) (gutter : Nat) {last : UInt32}
    (hlast : last.toNat + 1 = 2 ^ 32) (rounds : Nat) (n : UInt32) :
    numberedUpTo o f gutter last rounds n = .error .unfinished := by
  induction rounds generalizing n with
  | zero => rfl
  | succ rounds ih =>
    have hle : n ≤ last := UInt32.le_iff_toNat_le.2 (by have := n.toNat_lt; omega)
    rw [numberedUpTo, if_pos hle, numbered_eq hindex hshort, ok_bind, ih, error_bind]

/-- The line of an offset, wherever the offset is. -/
theorem toNat_line (off : UInt32) :
    (Source.lineCol f.breaks off).line.toNat = lineAt f.content off.toNat := by
  have hbefore := Source.breaksBefore_breaks (by omega : f.content.length < 2 ^ 32) off
  have hle := lineAt_le f.content off.toNat
  show (UInt32.ofNat (Source.breaksBefore f.breaks off 0 f.breaks.length) + 1).toNat = _
  rw [show (1 : UInt32) = UInt32.ofNat 1 from rfl, ← UInt32.ofNat_add, hindex, hbefore]
  exact Source.toNat_ofNat_of_le hshort (by omega)

/-- Only behind as many line feeds as there may be does a line have the last word as its
number. -/
theorem line_last_iff (off : UInt32) :
    (Source.lineCol f.breaks off).line.toNat + 1 = 2 ^ 32 ↔
      f.content = List.replicate (2 ^ 32 - 2) lineFeed ∧ 2 ^ 32 - 2 ≤ off.toNat := by
  rw [toNat_line hindex hshort, ← lineAt_eq_succ_iff (by omega)]
  omega

end Short

theorem bytesBefore_eq (line : Text) (col : UInt32) :
    bytesBefore line col = (Pretty.bytesBefore line col : Nat) := by
  rw [bytesBefore, Pretty.bytesBefore]
  omega

theorem marker_eq (w : Pretty.Widths) (s : Text) : marker w s = .ok (Pretty.marker w s) := by
  have hwidth : (max 1 (w.cells s) - 1).toNat = (w.cells s - 1).toNat := by omega
  rw [marker, copies_eq (by omega), ok_bind, pure_eq_ok, hwidth, Pretty.marker]

theorem firstLine_le (o : Pretty.Options) {n : Nat} (h : 1 ≤ n) : Pretty.firstLine o n ≤ n := by
  rw [Pretty.firstLine]
  split <;> omega

/-- A cut that would stop before it starts is empty when it is moved to its start. -/
theorem cut_max {α : Type} {xs : List α} {start stop : Nat} (hstart : start ≤ xs.length)
    (hstop : stop ≤ xs.length) :
    cut xs start (max (start : Int) stop) = .ok ((xs.take stop).drop start) := by
  have hmax : max start stop - start = stop - start := by omega
  rw [← Nat.cast_max, cut_eq (Nat.le_max_left _ _) (Nat.max_le.2 ⟨hstart, hstop⟩),
    List.drop_take, List.drop_take, hmax]

section Widths

variable {o : Pretty.Options} (hcells : ∀ s, 0 ≤ o.widths.cells s)
include hcells

theorem blankOut_eq (s : Text) : blankOut o.widths s = .ok (Pretty.blankOut o.widths s) := by
  rw [blankOut, mapM_eq_ok fun run _ => copies_eq (hcells run) 0x20, ok_bind, pure_eq_ok,
    Pretty.blankOut]
  rfl

/-- **The marker is cut inside of its line**, since both of its columns are moved there. -/
theorem underline_eq (gutter : Nat) (line : Text) (start stop : LineCol) :
    underline o gutter line start stop = .ok (
      Paint.blue.apply o.colour (Text.spaces gutter ++ " |") ++ " " ++
      Pretty.blankOut o.widths (line.take (Pretty.bytesBefore line start.col)) ++
      Paint.magenta.inBold.apply o.colour (Pretty.marker o.widths
        ((line.take (if stop.line = start.line then Pretty.bytesBefore line stop.col
          else line.length)).drop (Pretty.bytesBefore line start.col))) ++ "\n") := by
  have hbefore : ∀ col, Pretty.bytesBefore line col ≤ line.length :=
    fun col => Nat.min_le_right _ _
  have hlast : (if stop.line = start.line then bytesBefore line stop.col else line.length) =
      (if stop.line = start.line then Pretty.bytesBefore line stop.col else line.length : Nat) := by
    rw [bytesBefore_eq]
    split <;> rfl
  have hin : (if stop.line = start.line then Pretty.bytesBefore line stop.col
      else line.length) ≤ line.length := by
    split
    · exact hbefore _
    · exact Nat.le_refl _
  rw [underline, hlast, bytesBefore_eq, cut_zero (hbefore _), ok_bind, blankOut_eq hcells, ok_bind,
    cut_max (hbefore _) hin, ok_bind, marker_eq, ok_bind, pure_eq_ok]

variable {fs : Option FileSet} {span : Span} {f : SourceFile} (hf : fileOf fs span = some f)
  (hindex : f.breaks = Source.breaks f.content) (hshort : f.content.length < 2 ^ 32 - 1)
include hf hindex hshort

/-- A snippet is whole if there are rounds enough for its line, and nothing else goes wrong. -/
theorem snippet_eq (hlast : (f.resolve span).1.line.toNat + 1 ≠ 2 ^ 32) (rounds : Nat) :
    snippet rounds fs o f span =
      if (f.resolve span).1.line.toNat + 1 -
          Pretty.firstLine o (f.resolve span).1.line.toNat < rounds then
        .ok (Pretty.snippet o f span)
      else .error .unfinished := by
  have hpos : 1 ≤ (f.resolve span).1.line.toNat := by
    rw [SourceFile.resolve, toNat_line hindex hshort]
    exact lineAt_pos _ _
  have hlt := (f.resolve span).1.line.toNat_lt
  have hfirst : (UInt32.ofNat (Pretty.firstLine o (f.resolve span).1.line.toNat)).toNat =
      Pretty.firstLine o (f.resolve span).1.line.toNat :=
    UInt32.toNat_ofNat_of_lt' (Nat.lt_of_le_of_lt (firstLine_le o hpos) hlt)
  rw [snippet, resolve_eq hf, ok_bind]
  dsimp only
  rw [numberedUpTo_eq hindex hshort o _ (by omega), hfirst]
  split
  · rw [ok_bind, line_eq hindex hshort, ok_bind, underline_eq hcells, ok_bind, pure_eq_ok,
      Pretty.snippet]
    simp only [List.append_assoc]
  · rw [error_bind]

omit hcells in
/-- On the line with the last word as its number nothing is out of range, but there is no
end. -/
theorem snippet_last (hlast : (f.resolve span).1.line.toNat + 1 = 2 ^ 32) (rounds : Nat) :
    snippet rounds fs o f span = .error .unfinished := by
  rw [snippet, resolve_eq hf, ok_bind]
  dsimp only
  rw [numberedUpTo_last hindex hshort o _ hlast, error_bind]

theorem snippet_cases (rounds : Nat) :
    snippet rounds fs o f span = .ok (Pretty.snippet o f span) ∨
      snippet rounds fs o f span = .error .unfinished := by
  by_cases hlast : (f.resolve span).1.line.toNat + 1 = 2 ^ 32
  · exact .inr (snippet_last hf hindex hshort hlast rounds)
  · rw [snippet_eq hcells hf hindex hshort hlast]
    split
    · exact .inl rfl
    · exact .inr rfl

end Widths

/-! ## Diagnostics for readers -/

theorem place?_eq (fs : Option FileSet) (cwd : Text) (paths : PathStyle) (span : Span) :
    place? fs cwd paths span = .ok (Pretty.place? fs cwd paths span) := by
  rw [place?, start?_eq, ok_bind, pure_eq_ok]
  cases fs with
  | none => rfl
  | some s =>
    rw [fileOf, Option.bind_some, Pretty.place?]
    cases hf : s.get? span.file with
    | none => simp [hf]
    | some f => simp [hf, baseDir]

theorem fileOf_of_place? {fs : Option FileSet} {cwd place : Text} {paths : PathStyle} {span : Span}
    {f : SourceFile} (h : Pretty.place? fs cwd paths span = some (f, place)) :
    fileOf fs span = some f := by
  have hplace := place?_eq fs cwd paths span
  rw [place?, start?_eq, ok_bind, pure_eq_ok, h] at hplace
  obtain ⟨p, hp, hpair⟩ := Option.map_eq_some_iff.1 (Except.ok.inj hplace)
  obtain ⟨g, hg, rfl⟩ := Option.map_eq_some_iff.1 hp
  rw [hg, ← (Prod.mk.inj hpair).1]

theorem note_eq (fs : Option FileSet) (cwd : Text) (o : Pretty.Options) (detached : Bool)
    (n : Note) : note fs cwd o detached n = .ok (Pretty.note fs cwd o detached n) := by
  rw [note, place?_eq, ok_bind, Pretty.note]
  cases (if detached then none else Pretty.place? fs cwd o.paths n.span) with
  | none => rfl
  | some found => rfl

theorem notes_eq (fs : Option FileSet) (cwd : Text) (o : Pretty.Options) (d : Diagnostic) :
    notes fs cwd o d = .ok (if Pretty.showsNotes o.notes d.code then
      d.notes.flatMap (Pretty.note fs cwd o (Pretty.isDetached d.code)) else []) := by
  rw [notes, mapM_eq_ok fun n _ => note_eq fs cwd o _ n, ok_bind, pure_eq_ok, ← List.flatMap_def]
  split
  · rfl
  · rfl

end Checked

/-- Every file of the set is short enough for its lines to be counted in words. -/
def FileSet.Short (s : FileSet) : Prop :=
  ∀ (id : FileId) (f : SourceFile), s.get? id = some f → f.content.length < 2 ^ 32 - 1

/-- A diagnostic in a file that is nothing but line feeds, as many as a short file can hold,
and behind all of them. -/
def Pretty.Endless (fs : Option FileSet) (d : Diagnostic) : Prop :=
  isDetached d.code = false ∧ ∃ f, Checked.fileOf fs d.span = some f ∧
    f.content = List.replicate (2 ^ 32 - 2) lineFeed ∧ 2 ^ 32 - 2 ≤ d.span.start.toNat

namespace Checked

section Made

variable {fs : Option FileSet} (hfs : ∀ s ∈ fs, s.Made ∧ s.Short)
include hfs

theorem breaks_and_length {span : Span} {f : SourceFile} (hf : fileOf fs span = some f) :
    f.breaks = Source.breaks f.content ∧ f.content.length < 2 ^ 32 - 1 := by
  obtain ⟨s, hs, hget⟩ := Option.bind_eq_some_iff.1 hf
  obtain ⟨hmade, hshort⟩ := hfs s hs
  exact ⟨(hmade.indexed _ _ hget).2, hshort _ _ hget⟩

/-- The number of a diagnostic's line is the last word where printing does not end, and
nowhere else. -/
theorem line_last_iff_endless {d : Diagnostic} {f : SourceFile} (hf : fileOf fs d.span = some f)
    (hplaced : Pretty.isDetached d.code = false) :
    (f.resolve d.span).1.line.toNat + 1 = 2 ^ 32 ↔ Pretty.Endless fs d := by
  obtain ⟨hindex, hshort⟩ := breaks_and_length hfs hf
  rw [SourceFile.resolve, line_last_iff hindex hshort]
  constructor
  · intro hlast
    exact ⟨hplaced, f, hf, hlast⟩
  · rintro ⟨-, g, hg, hlast⟩
    rw [hf] at hg
    rwa [Option.some.inj hg]

omit hfs in
/-- A diagnostic is shown if its snippet is. -/
theorem diagnostic_eq {rounds : Nat} (cwd : Text) {o : Pretty.Options} {d : Diagnostic}
    (hsnippet : ∀ f, fileOf fs d.span = some f → Pretty.isDetached d.code = false →
      snippet rounds fs o f d.span = .ok (Pretty.snippet o f d.span)) :
    diagnostic rounds fs cwd o d = .ok (Pretty.diagnostic fs cwd o d) := by
  rw [diagnostic, finding, names_eq, ok_bind, place?_eq, ok_bind, notes_eq, Pretty.diagnostic]
  dsimp only
  cases hplace : (if Pretty.isDetached d.code then none
      else Pretty.place? fs cwd o.paths d.span) with
  | none => rfl
  | some found =>
    obtain ⟨f, place⟩ := found
    obtain ⟨hplaced, hplace⟩ := Option.ite_none_left_eq_some.1 hplace
    dsimp only
    rw [hsnippet f (fileOf_of_place? hplace) (Bool.eq_false_iff.2 hplaced)]
    rfl

omit hfs in
/-- A diagnostic fails as its snippet does. -/
theorem diagnostic_error {rounds : Nat} (cwd : Text) {o : Pretty.Options} {d : Diagnostic}
    {f : SourceFile} (hf : fileOf fs d.span = some f) (hplaced : Pretty.isDetached d.code = false)
    {fault : Fault} (hsnippet : snippet rounds fs o f d.span = .error fault) :
    diagnostic rounds fs cwd o d = .error fault := by
  rw [diagnostic, finding, names_eq, ok_bind, place?, start?_eq, hf, hplaced]
  simp [hsnippet]

theorem diagnostic_endless (rounds : Nat) (cwd : Text) (o : Pretty.Options) {d : Diagnostic}
    (hends : Pretty.Endless fs d) : diagnostic rounds fs cwd o d = .error .unfinished := by
  obtain ⟨hplaced, f, hf, -⟩ := id hends
  obtain ⟨hindex, hshort⟩ := breaks_and_length hfs hf
  have hlast := (line_last_iff_endless hfs hf hplaced).2 hends
  exact diagnostic_error cwd hf hplaced (snippet_last hf hindex hshort hlast rounds)

variable {o : Pretty.Options} (hcells : ∀ s, 0 ≤ o.widths.cells s)
include hcells

theorem diagnostic_cases (rounds : Nat) (cwd : Text) (d : Diagnostic) :
    diagnostic rounds fs cwd o d = .ok (Pretty.diagnostic fs cwd o d) ∨
      diagnostic rounds fs cwd o d = .error .unfinished := by
  by_cases hunfinished : ∃ f, fileOf fs d.span = some f ∧ Pretty.isDetached d.code = false ∧
      snippet rounds fs o f d.span = .error .unfinished
  · obtain ⟨f, hf, hplaced, hsnippet⟩ := hunfinished
    exact .inr (diagnostic_error cwd hf hplaced hsnippet)
  · refine .inl (diagnostic_eq cwd fun f hf hplaced => ?_)
    obtain ⟨hindex, hshort⟩ := breaks_and_length hfs hf
    exact (snippet_cases hcells hf hindex hshort rounds).resolve_right
      fun h => hunfinished ⟨f, hf, hplaced, h⟩

/-- There are no more line numbers than words, so with that many rounds every loop that ends is
at its end. -/
theorem diagnostic_ends (cwd : Text) {d : Diagnostic} (hends : ¬ Pretty.Endless fs d) :
    diagnostic UInt32.size fs cwd o d = .ok (Pretty.diagnostic fs cwd o d) := by
  refine diagnostic_eq cwd fun f hf hplaced => ?_
  obtain ⟨hindex, hshort⟩ := breaks_and_length hfs hf
  have hlast := mt (line_last_iff_endless hfs hf hplaced).1 hends
  have hlt := (f.resolve d.span).1.line.toNat_lt
  rw [snippet_eq hcells hf hindex hshort hlast, if_pos (by rw [UInt32.size]; omega)]

theorem pretty_cases (rounds : Nat) (cwd : Text) (ds : List Diagnostic) :
    pretty rounds fs cwd o ds = .ok (Pretty.render fs cwd o ds) ∨
      pretty rounds fs cwd o ds = .error .unfinished := by
  rw [pretty]
  rcases mapM_cases fun d (_ : d ∈ ds) => diagnostic_cases hfs hcells rounds cwd d with h | h
  · exact .inl (by rw [h, ok_bind, pure_eq_ok, Pretty.render])
  · exact .inr (by rw [h, error_bind])

/-- **Printing comes to an end** exactly if no diagnostic stands where it cannot. -/
theorem exists_pretty_iff (cwd : Text) (ds : List Diagnostic) :
    (∃ rounds, pretty rounds fs cwd o ds = .ok (Pretty.render fs cwd o ds)) ↔
      ∀ d ∈ ds, ¬ Pretty.Endless fs d := by
  constructor
  · rintro ⟨rounds, h⟩ d hd hends
    rw [pretty] at h
    cases htexts : ds.mapM (diagnostic rounds fs cwd o) with
    | error fault => rw [htexts, error_bind] at h; cases h
    | ok texts =>
      obtain ⟨text, htext⟩ := exists_of_mapM_eq_ok htexts d hd
      rw [diagnostic_endless hfs rounds cwd o hends] at htext
      cases htext
  · intro hends
    refine ⟨UInt32.size, ?_⟩
    rw [pretty, mapM_eq_ok fun d hd => diagnostic_ends hfs hcells cwd (hends d hd), ok_bind,
      pure_eq_ok, Pretty.render]

end Made

/-! ## The document -/

theorem location_eq (fs : Option FileSet) (cwd : Text) (o : DiagnosticDocument.Options)
    (detached : Bool) (span : Span) :
    location fs cwd o detached span = .ok (DiagnosticDocument.place fs cwd o detached span) := by
  rw [location, any_has_iff]
  cases fs with
  | none => simp [fileOf, DiagnosticDocument.place]
  | some s =>
    cases hget : s.get? span.file with
    | none => simp [fileOf, hget, DiagnosticDocument.place]
    | some f =>
      have hf : fileOf (some s) span = some f := hget
      cases detached with
      | true => simp [hget, DiagnosticDocument.place]
      | false =>
        cases hpos : o.positions <;>
          simp [hf, hget, hpos, file_eq hf, positions, resolve_eq hf, baseDir,
            DiagnosticDocument.place, DiagnosticDocument.location, SourceFile.resolve]

theorem entry_eq (fs : Option FileSet) (cwd : Text) (o : DiagnosticDocument.Options)
    (d : Diagnostic) : entry fs cwd o d = .ok (DiagnosticDocument.entry fs cwd o d) := by
  have hremark : ∀ detached n, remark fs cwd o detached n = .ok (Json.record
      [Json.text "message" n.message, DiagnosticDocument.place fs cwd o detached n.span]) := by
    intro detached n
    rw [remark, location_eq, ok_bind, pure_eq_ok]
  rw [entry, names_eq, ok_bind, location_eq, ok_bind, mapM_eq_ok fun n _ => hremark _ n, ok_bind,
    pure_eq_ok, DiagnosticDocument.entry]

theorem upTo_eq (limit : Int) (ds : List Diagnostic) :
    upTo limit ds = .ok (if 0 < limit then ds.take limit.toNat else ds) := by
  rw [upTo]
  by_cases hlow : 0 < limit
  · by_cases hhigh : limit < ds.length
    · have hcut : cut ds 0 limit.toNat = .ok (ds.take limit.toNat) := cut_zero (by omega)
      rw [Int.toNat_of_nonneg (by omega)] at hcut
      rw [if_pos ⟨hlow, hhigh⟩, if_pos hlow, hcut]
    · rw [if_neg fun h => hhigh h.2, if_pos hlow, List.take_of_length_le (by omega), pure_eq_ok]
  · rw [if_neg fun h => hlow h.1, if_neg hlow, pure_eq_ok]

theorem document_eq (fs : Option FileSet) (cwd : Text) (o : DiagnosticDocument.Options)
    (ds : List Diagnostic) : document fs cwd o ds = .ok (DiagnosticDocument.build fs cwd o ds) := by
  rw [document, upTo_eq, ok_bind, mapM_eq_ok fun d _ => entry_eq fs cwd o d, ok_bind, pure_eq_ok,
    List.length_map, DiagnosticDocument.build]

/-! ## Single lines -/

theorem withoutDot_eq (p : Text) : withoutDot p = .ok (DiagnosticLine.withoutDot p) := by
  fun_induction DiagnosticLine.withoutDot p with
  | case1 r ih =>
    have hcut : cut (0x2E :: 0x2F :: r) 2 (0x2E :: 0x2F :: r : Text).length = .ok r := by
      have hle : 2 ≤ (0x2E :: 0x2F :: r : Text).length := by simp only [List.length_cons]; omega
      have heq := cut_eq hle (Nat.le_refl _)
      rwa [List.take_length] at heq
    rw [withoutDot, if_pos (by rfl)]
    split
    · rename_i r' hr'
      rw [hcut] at hr'
      rw [← Except.ok.inj hr', ih]
    · rename_i hfault
      rw [hcut] at hfault
      cases hfault
  | case2 p hp =>
    rw [withoutDot, if_neg, pure_eq_ok]
    intro hstarts
    obtain ⟨r, hr⟩ := List.isPrefixOf_iff_prefix.1 hstarts
    exact hp r hr.symm

theorem at?_eq (s : FileSet) (cwd label : Text) (code : Code) (span : Span) (message : Text) :
    at? (some s) cwd label code span message =
      .ok (DiagnosticLine.at? s cwd label code span message) := by
  rw [at?, start?_eq, ok_bind, fileOf, Option.bind_some, DiagnosticLine.at?]
  cases s.get? span.file with
  | none => rfl
  | some f =>
    dsimp only [Option.map_some]
    rw [withoutDot_eq, ok_bind]
    rfl

theorem linesOf_eq (s : FileSet) (cwd : Text) (notes : Bool) (d : Diagnostic) :
    linesOf (some s) cwd notes d = .ok (DiagnosticLine.ofDiagnostic s cwd notes d) := by
  rw [linesOf, names_eq, ok_bind, at?_eq, ok_bind,
    mapM_eq_ok fun n _ => at?_eq s cwd _ d.code n.span n.message, ok_bind, pure_eq_ok,
    DiagnosticLine.ofDiagnostic, List.filterMap_map]
  cases notes <;> rfl

theorem lines_eq (fs : Option FileSet) (cwd : Text) (notes : Bool) (ds : List Diagnostic) :
    lines fs cwd notes ds = .ok (DiagnosticLine.ofDiagnostics fs cwd notes ds) := by
  cases fs with
  | none => rfl
  | some s =>
    rw [lines, if_neg (by simp), mapM_eq_ok fun d _ => linesOf_eq s cwd notes d, ok_bind,
      pure_eq_ok, ← List.flatMap_def, DiagnosticLine.ofDiagnostics]

end Checked

/-! ## All printers -/

namespace Pretty

/-- What is shown for a place on line `n`: the numbered lines up to that one, and under them
blanks, tabs and a marker of one caret and any number of tildes. -/
def Marked (o : Options) (f : SourceFile) (n : Nat) (shown : Text) : Prop :=
  ∃ (pad : Text) (tildes : Nat), (∀ b ∈ pad, b = Text.byte ' ' ∨ b = Text.byte '\t') ∧
    shown = (List.range' (firstLine o n) (n + 1 - firstLine o n)).flatMap
        (numbered o f (Text.ofNat n).length) ++
      Paint.blue.apply o.colour (Text.spaces (Text.ofNat n).length ++ " |") ++ " " ++ pad ++
      Paint.magenta.inBold.apply o.colour ("^" ++ List.replicate tildes (Text.byte '~')) ++ "\n"

theorem blank_of_mem_blankOut {w : Widths} {s : Text} {b : UInt8} (hb : b ∈ blankOut w s) :
    b = Text.byte ' ' ∨ b = Text.byte '\t' := by
  by_cases htab : b ∈ Text.ofString "\t"
  · exact .inr (List.mem_singleton.1 htab)
  · obtain ⟨part, hpart, hin⟩ := (Text.mem_join_iff htab _).1 hb
    obtain ⟨run, -, rfl⟩ := List.mem_map.1 hpart
    exact .inl (List.eq_of_mem_replicate hin)

theorem marked_snippet (o : Options) (f : SourceFile) (span : Span) :
    Marked o f (f.resolve span).1.line.toNat (snippet o f span) :=
  ⟨_, _, fun _ => blank_of_mem_blankOut, rfl⟩

/-- A diagnostic with a place shows its snippet between a headline and its notes. -/
theorem exists_diagnostic_eq {fs : Option FileSet} (cwd : Text) (o : Options) {d : Diagnostic}
    {f : SourceFile} (hf : Checked.fileOf fs d.span = some f)
    (hplaced : isDetached d.code = false) :
    ∃ headline notes, diagnostic fs cwd o d = headline ++ snippet o f d.span ++ notes := by
  have hplace : ∃ place, place? fs cwd o.paths d.span = some (f, place) := by
    have heq := Checked.place?_eq fs cwd o.paths d.span
    rw [Checked.place?, Checked.start?_eq, hf] at heq
    exact ⟨_, (Except.ok.inj heq).symm⟩
  obtain ⟨place, hplace⟩ := hplace
  rw [diagnostic, hplaced, hplace]
  exact ⟨_, _, rfl⟩

end Pretty

theorem FileSet.Short.add {s : FileSet} (h : s.Short) (path : Text) {content : Text}
    (hlen : content.length < 2 ^ 32 - 1) (flags : FileFlags) :
    (s.add path content flags).Short := by
  intro id f hf
  rw [get?, FileSet.add, Array.getElem?_push] at hf
  split at hf
  · obtain rfl := Option.some.inj hf
    exact hlen
  · exact h id f hf

/-- A finding behind the end of its file that stops before it starts, with a note in a file
that is not there. -/
def strayFinding : Diagnostic :=
  { Diagnostic.error .unexpectedToken ⟨0, 9, 1⟩ "m" with notes := [⟨⟨7, 4, 2⟩, "n"⟩] }

end Tarjuman
