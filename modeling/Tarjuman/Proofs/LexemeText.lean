/-
# What trivia and raw literals look like

`Tarjuman.Token.Lexeme` counts the bytes of trivia and of raw literals.  Here it is
said what these bytes are, without counting.

* Trivia is a sequence of blanks and comments, and a comment runs from `//` up to the
  next line feed or the end of the content (`Lexeme.Trivia`).
* A raw literal is `-{`, text whose braces match (`Lexeme.Balanced`), `}` and at most
  one `-`; what is kept of it is the inner text without the blanks at its ends
  (`Lexeme.Trims`).

`Lexeme.trivia_triviaSize` and `Lexeme.rawText_of_read` say that this is what is counted.
-/

import Mathlib.Algebra.Order.Group.Nat
import Mathlib.Data.List.TakeWhile
import Tarjuman.Proofs.LexemeBounds
import Tarjuman.Token.Cursor

namespace Tarjuman
namespace Lexeme

/-! ## Trivia -/

/-- The text `s` in front of `rest` consists of blanks and comments.  What follows a
comment is a line feed or nothing. -/
inductive Trivia : (s rest : Text) → Prop where
  | nil (rest : Text) : Trivia [] rest
  | blank {b : UInt8} {s rest : Text} (h : isBlank b = true) (more : Trivia s rest) :
      Trivia (b :: s) rest
  | comment {body s rest : Text} (line : ∀ b ∈ body, b ≠ Cursor.lineFeed)
      (stop : ∀ b ∈ (s ++ rest).head?, b = Cursor.lineFeed) (more : Trivia s rest) :
      Trivia (Text.ofString "//" ++ (body ++ s)) rest

/-- The text `s` in front of `rest` is the end of a comment with the trivia behind it. -/
def CommentTail (s rest : Text) : Prop :=
  ∃ body more, s = body ++ more ∧ (∀ b ∈ body, b ≠ Cursor.lineFeed) ∧
    (∀ b ∈ (more ++ rest).head?, b = Cursor.lineFeed) ∧ Trivia more rest

/-- One more byte of a comment. -/
theorem CommentTail.cons {b : UInt8} {s rest : Text} (hb : b ≠ Cursor.lineFeed)
    (h : CommentTail s rest) : CommentTail (b :: s) rest := by
  obtain ⟨body, more, rfl, hbody, hstop, hmore⟩ := h
  exact ⟨b :: body, more, rfl, List.forall_mem_cons.2 ⟨hb, hbody⟩, hstop, hmore⟩

/-- A comment ends in front of a line feed. -/
theorem Trivia.commentTail {s rest : Text} (h : Trivia (Cursor.lineFeed :: s) rest) :
    CommentTail (Cursor.lineFeed :: s) rest :=
  ⟨[], _, rfl, List.forall_mem_nil _, by simp, h⟩

/-- Two strokes start a comment. -/
theorem CommentTail.trivia {s rest : Text} (h : CommentTail (Text.byte '/' :: s) rest) :
    Trivia (Text.byte '/' :: Text.byte '/' :: s) rest := by
  obtain ⟨body, more, hs, hbody, hstop, hmore⟩ := h
  cases body with
  | nil =>
    rw [List.nil_append] at hs
    subst hs
    exact absurd (hstop (Text.byte '/') rfl) (by decide)
  | cons b body =>
    obtain ⟨rfl, rfl⟩ := List.cons_eq_cons.1 hs
    exact .comment (List.forall_mem_cons.1 hbody).2 hstop hmore

/-- The trivia at the head of a text, for both modes of reading. -/
theorem trivia_or_commentTail (comment : Bool) (s : Text) :
    (comment = false →
      Trivia (s.take (triviaSize comment s)) (s.drop (triviaSize comment s))) ∧
    (comment = true →
      CommentTail (s.take (triviaSize comment s)) (s.drop (triviaSize comment s))) := by
  fun_induction triviaSize comment s with
  | case1 comment =>
    exact ⟨fun _ => .nil _, fun _ => ⟨[], [], rfl, by simp, by simp, .nil _⟩⟩
  | case2 b r ih =>
    refine ⟨by simp, fun _ => ?_⟩
    rw [Nat.add_comm, List.take_succ_cons, List.drop_succ_cons]
    by_cases hb : b = Cursor.lineFeed
    · subst hb
      exact (Trivia.blank (by decide) (ih.1 rfl)).commentTail
    · have hne : (b != 0x0A) = true := bne_iff_ne.2 hb
      exact (ih.2 hne).cons hb
  | case3 b r hblank ih =>
    refine ⟨fun _ => ?_, by simp⟩
    rw [Nat.add_comm, List.take_succ_cons, List.drop_succ_cons]
    exact .blank hblank (ih.1 rfl)
  | case4 b r _ hslash ih =>
    refine ⟨fun _ => ?_, by simp⟩
    rw [Bool.and_eq_true, beq_iff_eq, beq_iff_eq] at hslash
    obtain ⟨rfl, hhead⟩ := hslash
    obtain ⟨r, rfl⟩ := List.head?_eq_some_iff.1 hhead
    have hsize : triviaSize true (Text.byte '/' :: r) = triviaSize true r + 1 :=
      Nat.add_comm _ _
    have htail := ih.2 rfl
    rw [hsize, List.take_succ_cons, List.drop_succ_cons] at htail
    rw [hsize, Nat.add_comm, List.take_succ_cons, List.take_succ_cons, List.drop_succ_cons,
      List.drop_succ_cons]
    exact htail.trivia
  | case5 b r => exact ⟨fun _ => .nil _, by simp⟩

/-- **What is passed over is trivia.** -/
theorem trivia_triviaSize (s : Text) :
    Trivia (s.take (triviaSize false s)) (s.drop (triviaSize false s)) :=
  (trivia_or_commentTail false s).1 rfl

/-! ## Raw literals -/

/-- The brace that opens. -/
def openBrace : UInt8 := Text.byte '{'

/-- The brace that closes. -/
def closeBrace : UInt8 := Text.byte '}'

/-- The braces of a text match: it closes as many as it opens, and no more at any point. -/
structure Balanced (s : Text) : Prop where
  total : s.count closeBrace = s.count openBrace
  never : ∀ p, p <+: s → p.count closeBrace ≤ p.count openBrace

/-- The text closes `depth` braces more than it opens, and no more at any point. -/
structure ClosesBraces (depth : Nat) (s : Text) : Prop where
  total : s.count closeBrace = s.count openBrace + depth
  never : ∀ p, p <+: s → p.count closeBrace ≤ p.count openBrace + depth

theorem ClosesBraces.nil : ClosesBraces 0 [] := ⟨rfl, by simp⟩

theorem ClosesBraces.balanced {s : Text} (h : ClosesBraces 0 s) : Balanced s := ⟨h.total, h.never⟩

/-- One byte in front, `depth` being what is left to close before it and `depth'` behind. -/
theorem closesBraces_cons {depth depth' : Nat} {b : UInt8}
    (hdepth : [b].count closeBrace + depth' = [b].count openBrace + depth) (s : Text) :
    ClosesBraces depth (b :: s) ↔ ClosesBraces depth' s := by
  have hcons (x : UInt8) (p : Text) : (b :: p).count x = [b].count x + p.count x := by
    rw [← List.singleton_append, List.count_append]
  constructor
  · rintro ⟨htotal, hnever⟩
    rw [hcons closeBrace, hcons openBrace] at htotal
    refine ⟨by omega, fun p hp => ?_⟩
    have hle := hnever (b :: p) (List.cons_prefix_cons.2 ⟨rfl, hp⟩)
    rw [hcons closeBrace, hcons openBrace] at hle
    omega
  · rintro ⟨htotal, hnever⟩
    refine ⟨by rw [hcons closeBrace, hcons openBrace]; omega, fun p hp => ?_⟩
    rcases List.prefix_cons_iff.1 hp with rfl | ⟨q, rfl, hq⟩
    · simp
    · have hle := hnever q hq
      rw [hcons closeBrace, hcons openBrace]
      omega

/-- How a byte changes the number of braces that are left to close. -/
theorem count_brace (b : UInt8) (depth : Nat) :
    [b].count closeBrace + (if b == Text.byte '{' then depth + 2
      else if b == Text.byte '}' then depth else depth + 1) =
      [b].count openBrace + (depth + 1) := by
  have hdiff : Text.byte '{' ≠ Text.byte '}' := by decide
  simp only [List.count_singleton, beq_iff_eq, openBrace, closeBrace]
  grind

/-- With none left to close, a byte that closes none. -/
theorem count_brace_of_ne {b : UInt8} (h : b ≠ closeBrace) :
    [b].count closeBrace + (if b == Text.byte '{' then 1 else 0) = [b].count openBrace + 0 := by
  simp only [List.count_singleton, beq_iff_eq, openBrace, if_neg h]
  omega

/-- **What stands before the brace that closes `depth + 1` open ones** closes `depth` of
them. -/
theorem closesBraces_of_rawSize? {depth : Nat} {r : Text} {n : Nat}
    (h : rawSize? depth r = some n) :
    ClosesBraces depth (r.take n) ∧ ∃ rest, r.drop n = closeBrace :: rest := by
  fun_induction rawSize? depth r generalizing n with
  | case1 => cases h
  | case2 b r hb =>
    cases h
    rw [beq_iff_eq] at hb
    exact ⟨.nil, r, by rw [hb]; rfl⟩
  | case3 b r hb ih =>
    obtain ⟨m, hm, rfl⟩ := Option.map_eq_some_iff.1 h
    obtain ⟨hcloses, hrest⟩ := ih hm
    rw [Nat.add_comm, List.take_succ_cons, List.drop_succ_cons]
    have hdepth := count_brace_of_ne fun heq => hb (beq_iff_eq.2 heq)
    exact ⟨(closesBraces_cons hdepth _).2 hcloses, hrest⟩
  | case4 d b r =>
    rename_i ih
    obtain ⟨m, hm, rfl⟩ := Option.map_eq_some_iff.1 h
    obtain ⟨hcloses, hrest⟩ := ih hm
    rw [Nat.add_comm, List.take_succ_cons, List.drop_succ_cons]
    exact ⟨(closesBraces_cons (count_brace b d) _).2 hcloses, hrest⟩

/-- The text `s` is `core` with blanks `l` before and `r` behind it, and `core` has none at
its ends. -/
structure Trims (s l core r : Text) : Prop where
  split : s = l ++ (core ++ r)
  left : ∀ b ∈ l, isBlank b = true
  right : ∀ b ∈ r, isBlank b = true
  first : ∀ b ∈ core.head?, isBlank b = false
  last : ∀ b ∈ core.getLast?, isBlank b = false

theorem head?_dropWhile_not_blank (s : Text) :
    ∀ b ∈ (s.dropWhile isBlank).head?, isBlank b = false := by
  intro b hb
  have h := List.head?_dropWhile_not isBlank s
  rw [Option.mem_def.1 hb] at h
  exact h

/-- What is left behind the bytes of a class. -/
theorem drop_length_takeWhile (p : UInt8 → Bool) (s : Text) :
    s.drop (s.takeWhile p).length = s.dropWhile p := by
  have hdrop : (s.takeWhile p ++ s.dropWhile p).drop (s.takeWhile p).length = s.dropWhile p :=
    List.drop_left
  rwa [List.takeWhile_append_dropWhile] at hdrop

/-- Taking the blanks off both ends. -/
theorem trims_dropWhile (s : Text) :
    Trims s (s.takeWhile isBlank)
      ((s.dropWhile isBlank).reverse.dropWhile isBlank).reverse
      ((s.dropWhile isBlank).reverse.takeWhile isBlank).reverse where
  split := by
    rw [← List.reverse_append, List.takeWhile_append_dropWhile, List.reverse_reverse,
      List.takeWhile_append_dropWhile]
  left := fun b hb => List.mem_takeWhile_imp hb
  right := fun b hb => List.mem_takeWhile_imp (List.mem_reverse.1 hb)
  first := by
    intro b hb
    have hcore : ((s.dropWhile isBlank).reverse.dropWhile isBlank).reverse <+:
        s.dropWhile isBlank := by
      rw [← List.reverse_suffix, List.reverse_reverse]
      exact List.dropWhile_suffix _
    obtain ⟨back, hback⟩ := hcore
    refine head?_dropWhile_not_blank s b ?_
    rw [← hback, List.head?_append, Option.mem_def.1 hb]
    rfl
  last := by
    intro b hb
    rw [List.getLast?_reverse] at hb
    exact head?_dropWhile_not_blank _ b hb

/-- The text is a raw literal with the dash that may follow it.  Its inner text starts with
the blanks `l`, and `core` is what is left of it without the blanks at both ends. -/
inductive RawText : (s l core : Text) → Prop where
  | intro {inner l core r dash : Text} (braces : Balanced inner) (blanks : Trims inner l core r)
      (tail : dash = [] ∨ dash = [Text.byte '-']) :
      RawText (Text.ofString "-\x7b" ++ (inner ++ closeBrace :: dash)) l core

/-- The bytes of a raw literal with `dash` bytes behind it. -/
theorem take_raw (inner rest : Text) (dash : Nat) :
    (Text.ofString "-\x7b" ++ (inner ++ closeBrace :: rest)).take (2 + inner.length + 1 + dash) =
      Text.ofString "-\x7b" ++ (inner ++ closeBrace :: rest.take dash) := by
  have hsize : 2 + inner.length + 1 + dash =
      (Text.ofString "-\x7b").length + (inner.length + (dash + 1)) := by
    rw [show (Text.ofString "-\x7b").length = 2 from rfl]
    omega
  rw [hsize, List.take_length_add_append, List.take_length_add_append, List.take_succ_cons]

theorem rawText_of_rawLiteral {r : Text} {lead size total : Nat}
    (h : rawLiteral r = raw lead size total) :
    ∃ l core, RawText ((Text.ofString "-\x7b" ++ r).take total) l core ∧
      lead = 2 + l.length ∧ size = core.length := by
  rw [rawLiteral] at h
  split at h
  · cases h
  · rename_i n hn
    obtain ⟨hcloses, rest, hrest⟩ := closesBraces_of_rawSize? hn
    have hlen : (r.take n).length = n :=
      List.length_take_of_le (Nat.le_of_lt (rawSize?_lt hn))
    have hr : r = r.take n ++ closeBrace :: rest := by rw [← hrest, List.take_append_drop]
    generalize r.take n = inner at hcloses hlen hr h
    subst hr hlen
    have hbehind : (inner ++ closeBrace :: rest).drop (inner.length + 1) = rest := by
      rw [← List.drop_drop, List.drop_left]
      rfl
    dsimp only at h
    rw [hbehind, drop_length_takeWhile, raw.injEq] at h
    obtain ⟨rfl, rfl, rfl⟩ := h
    refine ⟨_, _, ?_, rfl, (List.length_reverse ..).symm⟩
    rw [take_raw]
    refine .intro hcloses.balanced (trims_dropWhile inner) ?_
    split
    · rename_i hdash
      obtain ⟨back, rfl⟩ := List.head?_eq_some_iff.1 hdash
      exact .inr rfl
    · exact .inl rfl

/-- **What is read as a raw literal is one**, and what is kept of it is its inner text
without the blanks at both ends. -/
theorem rawText_of_read {s : Text} {lead size total : Nat} (h : read s = raw lead size total) :
    ∃ l core, RawText (s.take total) l core ∧ lead = 2 + l.length ∧ size = core.length := by
  rw [read] at h
  split at h
  · cases h
  · split at h
    · rename_i hraw
      rw [Text.after?_eq_some_iff.1 hraw]
      exact rawText_of_rawLiteral h
    · rw [string] at h
      split at h <;> cases h
    · cases h
    · rw [word] at h
      split at h <;> cases h

end Lexeme
end Tarjuman
