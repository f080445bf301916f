/-
# Reading a content in another place

What is read at a cursor depends on the bytes that are left and on nothing else: the
same bytes in another file, further on or further down, give the same tokens and
reports with their places moved (`Cursor.fetchAll_shift`).  A `Shift` says how far, and
places move by it as words do, so no two places become one (`Span.shift_injective`).
-/

import Tarjuman.Token.Lexer

namespace Tarjuman

/-- How far a place moves: to another file, further on, and further down. -/
structure Shift where
  file : UInt32
  off : UInt32
  line : UInt32

namespace Shift

/-- To the file with the number `j`, for what stands in the file with the number `i`. -/
def toFile (i j : FileId) : Shift := ⟨j - i, 0, 0⟩

end Shift

variable (k : Shift)

namespace Span

/-- The span with its place moved. -/
def shift (s : Span) : Span := ⟨s.file + k.file, s.start + k.off, s.stop + k.off⟩

theorem shift_injective {s s' : Span} (h : s.shift k = s'.shift k) : s = s' := by
  obtain ⟨hfile, hstart, hstop⟩ := Span.mk.inj h
  rw [UInt32.add_left_inj] at hfile hstart hstop
  cases s
  cases s'
  exact congr (congr (congrArg Span.mk hfile) hstart) hstop

end Span

/-- The token with its place moved. -/
def Token.shift (t : Token) : Token := ⟨t.kind, t.line + k.line, t.span.shift k⟩

/-- The remark with its place moved. -/
def Note.shift (n : Note) : Note := { n with span := n.span.shift k }

/-- The finding with its place and the places of its remarks moved. -/
def Diagnostic.shift (d : Diagnostic) : Diagnostic :=
  { d with span := d.span.shift k, notes := d.notes.map (Note.shift k) }

namespace Cursor

/-- The cursor before the same bytes with its place moved. -/
def shift (c : Cursor) : Cursor := ⟨c.file + k.file, c.rest, c.off + k.off, c.line + k.line⟩

end Cursor

/-- What was fetched with all places moved. -/
def Fetch.shift (f : Fetch) : Fetch :=
  ⟨f.token.shift k, f.report.map (Diagnostic.shift k), f.cursor.shift k⟩

namespace Cursor

variable (c : Cursor)

theorem skip_shift (n : Nat) : (c.shift k).skip n = (c.skip n).shift k := by
  simp only [skip, shift, mk.injEq, true_and]
  constructor <;> ac_rfl

theorem span_shift (lead size : Nat) : (c.shift k).span lead size = (c.span lead size).shift k := by
  simp only [span, shift, Span.shift, Span.mk.injEq, true_and]
  constructor <;> ac_rfl

theorem endToken_shift : (c.shift k).endToken = c.endToken.shift k := rfl

theorem unclosed_shift (code : Code) (message : Text) :
    (c.shift k).unclosed code message = (c.unclosed code message).shift k := by
  have hrest : (c.shift k).rest = c.rest := rfl
  simp only [unclosed, hrest, skip_shift, endToken_shift]
  rfl

theorem take_shift (kind : Kind) (size : Nat) :
    (c.shift k).take kind size = (c.take kind size).shift k := by
  have hrest : (c.shift k).rest = c.rest := rfl
  simp only [take, hrest, skip_shift, span_shift, Fetch.shift, Fetch.mk.injEq, and_true]
  refine ⟨rfl, ?_⟩
  split <;> rfl

theorem fetchHere_shift : (c.shift k).fetchHere = c.fetchHere.shift k := by
  have hrest : (c.shift k).rest = c.rest := rfl
  rw [fetchHere, fetchHere, hrest]
  split
  · rfl
  split
  · exact take_shift k c _ _
  · rename_i lead size total _
    simp only [skip_shift, span_shift, Fetch.shift, Token.shift, Fetch.mk.injEq, Token.mk.injEq,
      true_and, and_true, Option.map_none]
    show c.line + k.line + lineFeeds (c.rest.take lead) = _
    ac_rfl
  · exact unclosed_shift k c _ _
  · exact unclosed_shift k c _ _

/-- One fetch in another place. -/
theorem fetch_shift : (c.shift k).fetch = c.fetch.shift k := by
  have htrivia : (c.shift k).skipTrivia = c.skipTrivia.shift k := skip_shift k c _
  rw [fetch, htrivia, fetchHere_shift]
  rfl

/-- **Reading in another place** gives the same, moved there. -/
theorem fetchAll_shift : (c.shift k).fetchAll = c.fetchAll.map (Fetch.shift k) := by
  fun_induction fetchAll c with
  | case1 c hend =>
    have hend' : (c.shift k).fetch.token.kind = .endOfInput := by rw [fetch_shift]; exact hend
    rw [fetchAll, dif_pos hend', fetch_shift]
    rfl
  | case2 c hend ih =>
    have hend' : ¬ (c.shift k).fetch.token.kind = .endOfInput := by rw [fetch_shift]; exact hend
    rw [fetchAll, dif_neg hend', fetch_shift, List.map_cons, ← ih]
    rfl

end Cursor
end Tarjuman
