/-
# Every content is read as a token stream

A cursor that reads a content always stands at an offset of it: what is left is the
content from there on, its offset is that number as a word, and its line is one more
than the line feeds before (`Cursor.At`).  Passing over bytes keeps this
(`Cursor.At.skip`), so every fetch covers a range of the content behind the one
before (`Cursor.At.fetch`), and the tokens of a whole content are a chain of such
ranges that ends with the end of the input (`Cursor.At.fetchAll`).

Words wrap, but the content is shorter than `2 ^ 32 - 1` bytes, so no offset and no
line does.  On such contents the chain has the shape that `TokenStream.fault?` checks
(`TokenStream.fault?_eq_none_iff`).
-/

import Mathlib.Algebra.Group.Nat.Defs
import Mathlib.Data.List.Basic
import Tarjuman.Proofs.LexemeBounds
import Tarjuman.Token.Lexer
import Tarjuman.Token.Stream

namespace Tarjuman

/-- The line that an offset of a content lies on, counted from one. -/
def lineAt (content : Text) (pos : Nat) : Nat := 1 + (content.take pos).count Cursor.lineFeed

theorem lineAt_add (content : Text) (pos n : Nat) :
    lineAt content (pos + n) =
      lineAt content pos + ((content.drop pos).take n).count Cursor.lineFeed := by
  rw [lineAt, List.take_add, List.count_append, lineAt, Nat.add_assoc]

theorem lineAt_mono (content : Text) {p q : Nat} (h : p ≤ q) :
    lineAt content p ≤ lineAt content q := by
  obtain ⟨n, rfl⟩ := Nat.exists_eq_add_of_le h
  rw [lineAt_add]
  exact Nat.le_add_right _ _

theorem lineAt_le (content : Text) (pos : Nat) : lineAt content pos ≤ 1 + content.length := by
  have h₁ := List.count_le_length (a := Cursor.lineFeed) (l := content.take pos)
  have h₂ := (List.take_prefix pos content).length_le
  rw [lineAt]
  omega

/-- The token covers the offsets from `a` up to `b` of a content and carries the line
of the first of them. -/
structure Token.Covers (file : FileId) (content : Text) (a b : Nat) (t : Token) : Prop where
  ordered : a ≤ b
  inside : b ≤ content.length
  span_eq : t.span = ⟨file, UInt32.ofNat a, UInt32.ofNat b⟩
  line_eq : t.line = UInt32.ofNat (lineAt content a)

namespace Cursor

/-- The cursor stands at the offset `pos` of a content. -/
structure At (file : FileId) (content : Text) (pos : Nat) (c : Cursor) : Prop where
  inside : pos ≤ content.length
  file_eq : c.file = file
  rest_eq : c.rest = content.drop pos
  off_eq : c.off = UInt32.ofNat pos
  line_eq : c.line = UInt32.ofNat (lineAt content pos)

theorem start_at (file : FileId) (content : Text) : (start file content).At file content 0 :=
  ⟨Nat.zero_le _, rfl, rfl, rfl, by rw [lineAt, List.take_zero, List.count_nil]; rfl⟩

namespace At

variable {file : FileId} {content : Text} {pos : Nat} {c : Cursor}

theorem length_rest (h : c.At file content pos) : c.rest.length = content.length - pos := by
  rw [h.rest_eq, List.length_drop]

theorem lineFeeds_take (h : c.At file content pos) (n : Nat) :
    c.line + lineFeeds (c.rest.take n) = UInt32.ofNat (lineAt content (pos + n)) := by
  rw [h.line_eq, h.rest_eq, lineFeeds, lineAt_add, UInt32.ofNat_add]

/-- Passing over bytes moves the cursor by as many offsets. -/
theorem skip (h : c.At file content pos) {n : Nat} (hn : n ≤ c.rest.length) :
    (c.skip n).At file content (pos + n) where
  inside := by have := h.length_rest; have := h.inside; omega
  file_eq := h.file_eq
  rest_eq := by rw [Cursor.skip, h.rest_eq, List.drop_drop]
  off_eq := by
    rw [Cursor.skip, List.length_take, Nat.min_eq_left hn, h.off_eq, UInt32.ofNat_add]
  line_eq := h.lineFeeds_take n

theorem skipTrivia (h : c.At file content pos) :
    c.skipTrivia.At file content (pos + Lexeme.triviaSize false c.rest) :=
  h.skip (Lexeme.triviaSize_le false c.rest)

/-- The span of some of the bytes that are left is the range of their offsets. -/
theorem span_eq (h : c.At file content pos) (lead size : Nat) :
    c.span lead size = ⟨file, UInt32.ofNat (pos + lead), UInt32.ofNat (pos + (lead + size))⟩ := by
  rw [span, h.file_eq, h.off_eq, UInt32.ofNat_add pos lead, UInt32.ofNat_add pos (lead + size)]

theorem covers_endToken (h : c.At file content pos) : c.endToken.Covers file content pos pos :=
  ⟨Nat.le_refl _, h.inside, by rw [endToken, h.file_eq, h.off_eq]; rfl, h.line_eq⟩

end At

/-- What one fetch from the offset `pos` on can be: a token that covers a range further
on and leaves the cursor behind it, or the end of the input at the end of the content. -/
inductive Fetches (file : FileId) (content : Text) (pos : Nat) (f : Fetch) : Prop where
  | token {a b next : Nat} (after : pos ≤ a) (covers : f.token.Covers file content a b)
      (behind : b ≤ next) (moved : a < next) (kind : f.token.kind ≠ .endOfInput)
      (solid : f.token.kind ≠ .rawLit → a < b) (cursor : f.cursor.At file content next)
  | finish (kind : f.token.kind = .endOfInput)
      (covers : f.token.Covers file content content.length content.length)
      (cursor : f.cursor.At file content content.length)

namespace At

variable {file : FileId} {content : Text} {pos : Nat} {c : Cursor}

/-- A lexeme that is not closed takes everything up to the end of the content. -/
theorem fetches_unclosed (h : c.At file content pos) (code : Code) (message : Text) :
    Fetches file content pos (c.unclosed code message) := by
  have hend := h.skip (Nat.le_refl _)
  have hpos : pos + c.rest.length = content.length := by
    have := h.length_rest; have := h.inside; omega
  rw [hpos] at hend
  exact .finish rfl hend.covers_endToken hend

theorem fetches_take (h : c.At file content pos) {kind : Kind} {size : Nat}
    (hfits : (Lexeme.token kind size).Fits c.rest) :
    Fetches file content pos (c.take kind size) := by
  obtain ⟨hpos, hle, hkind, _⟩ := hfits
  have hnext := h.skip hle
  have hspan := h.span_eq 0 size
  rw [Nat.add_zero, Nat.zero_add] at hspan
  exact .token (Nat.le_refl _) ⟨by omega, hnext.inside, hspan, h.line_eq⟩ (Nat.le_refl _)
    (by omega) hkind (fun _ => by omega) hnext

theorem fetchHere (h : c.At file content pos) : Fetches file content pos c.fetchHere := by
  rw [Cursor.fetchHere]
  split
  · rename_i hrest
    have hpos : pos = content.length := by
      have := h.length_rest
      rw [hrest, List.length_nil] at this
      have := h.inside
      omega
    subst hpos
    exact .finish rfl h.covers_endToken h
  · rename_i hrest
    have hfits := Lexeme.read_fits hrest
    split <;> rename_i hread <;> rw [hread] at hfits
    · exact h.fetches_take hfits
    · rename_i lead size total
      obtain ⟨hlt, hle⟩ := hfits
      have hnext := h.skip hle
      have hin := hnext.inside
      exact .token (a := pos + lead) (b := pos + (lead + size)) (by omega)
        ⟨by omega, by omega, h.span_eq lead size, h.lineFeeds_take lead⟩
        (by omega) (by omega) (by simp) (fun hraw => absurd rfl hraw) hnext
    · exact h.fetches_unclosed _ _
    · exact h.fetches_unclosed _ _

/-- **One fetch moves on.**  From any offset the next token covers a range that lies
behind it, and the cursor then stands behind that range. -/
theorem fetch (h : c.At file content pos) : Fetches file content pos c.fetch := by
  cases h.skipTrivia.fetchHere with
  | token after covers behind moved kind solid cursor =>
    exact .token (by omega) covers behind moved kind solid cursor
  | finish kind covers cursor => exact .finish kind covers cursor

end At
end Cursor

namespace TokenStream

/-- Tokens read from the offset `pos` on: ranges one behind the other, and the end of
the input at the end of the content. -/
inductive ReadFrom (file : FileId) (content : Text) : Nat → List Token → Prop where
  | finish {pos : Nat} {t : Token} (inside : pos ≤ content.length) (kind : t.kind = .endOfInput)
      (covers : t.Covers file content content.length content.length) :
      ReadFrom file content pos [t]
  | token {pos a b next : Nat} {t : Token} {ts : List Token} (after : pos ≤ a)
      (covers : t.Covers file content a b) (behind : b ≤ next) (moved : a < next)
      (kind : t.kind ≠ .endOfInput) (solid : t.kind ≠ .rawLit → a < b)
      (rest : ReadFrom file content next ts) : ReadFrom file content pos (t :: ts)

/-- The last token, and no other, is the end of the input. -/
theorem ReadFrom.ends {file : FileId} {content : Text} {pos : Nat} {toks : List Token}
    (h : ReadFrom file content pos toks) :
    ∃ body last, toks = body ++ [last] ∧ last.kind = .endOfInput ∧
      ∀ t ∈ body, t.kind ≠ .endOfInput := by
  induction h with
  | finish inside kind covers => exact ⟨[], _, rfl, kind, nofun⟩
  | token after covers behind moved kind solid rest ih =>
    obtain ⟨body, last, rfl, hlast, hbody⟩ := ih
    exact ⟨_ :: body, last, rfl, hlast, List.forall_mem_cons.2 ⟨kind, hbody⟩⟩

/-- Every span names the file. -/
theorem ReadFrom.file_eq {file : FileId} {content : Text} {pos : Nat} {toks : List Token}
    (h : ReadFrom file content pos toks) : ∀ t ∈ toks, t.span.file = file := by
  induction h with
  | finish inside kind covers => exact List.forall_mem_singleton.2 (by rw [covers.span_eq])
  | token after covers behind moved kind solid rest ih =>
    exact List.forall_mem_cons.2 ⟨by rw [covers.span_eq], ih⟩

/-- Every token covers a range of the content. -/
theorem ReadFrom.exists_covers {file : FileId} {content : Text} {pos : Nat} {toks : List Token}
    (h : ReadFrom file content pos toks) : ∀ t ∈ toks, ∃ a b, t.Covers file content a b := by
  induction h with
  | finish inside kind covers => exact List.forall_mem_singleton.2 ⟨_, _, covers⟩
  | token after covers behind moved kind solid rest ih =>
    exact List.forall_mem_cons.2 ⟨⟨_, _, covers⟩, ih⟩

end TokenStream

/-- **Reading to the end.**  The tokens from a cursor on cover ranges one behind the
other, from the offset of the cursor up to the end of the content. -/
theorem Cursor.At.fetchAll {file : FileId} {content : Text} {pos : Nat} {c : Cursor}
    (h : c.At file content pos) :
    TokenStream.ReadFrom file content pos (c.fetchAll.map (·.token)) := by
  fun_induction Cursor.fetchAll c generalizing pos with
  | case1 c hend =>
    cases h.fetch with
    | token _ _ _ _ kind _ _ => exact absurd hend kind
    | finish kind covers _ => exact .finish h.inside kind covers
  | case2 c hend ih =>
    cases h.fetch with
    | token after covers behind moved kind solid cursor =>
      exact .token after covers behind moved kind solid (ih cursor)
    | finish kind _ _ => exact absurd kind hend

theorem readFrom_tokenize (file : FileId) (content : Text) :
    TokenStream.ReadFrom file content 0 (tokenize file content).tokens :=
  (Cursor.start_at file content).fetchAll

namespace TokenStream

/-- The shape of the tokens of a content. -/
structure WellFormed (file : FileId) (content : Text) (toks : List Token) : Prop where
  /-- The last token, and no other, is the end of the input. -/
  ends : ∃ body last, toks = body ++ [last] ∧ last.kind = .endOfInput ∧
    ∀ t ∈ body, t.kind ≠ .endOfInput
  /-- Start offsets grow strictly. -/
  starts : toks.Pairwise (·.span.start < ·.span.start)
  /-- Every span names the file and lies inside the content. -/
  inside : ∀ t ∈ toks, t.span.file = file ∧ t.span.start ≤ t.span.stop ∧
    t.span.stop.toNat ≤ content.length
  /-- Only the end of the input and raw literals may be empty. -/
  solid : ∀ t ∈ toks, t.kind ≠ .endOfInput → t.kind ≠ .rawLit → t.span.start < t.span.stop
  /-- Lines count from one. -/
  firstLine : ∀ t ∈ toks, 1 ≤ t.line
  /-- Lines never go back. -/
  lines : toks.Pairwise (·.line ≤ ·.line)

/-- A token has no fault in its place behind `previous`. -/
theorem tokenFault?_eq_none_iff {file : FileId} {size index : Nat} {isLast : Bool}
    {previous : Option Token} {t : Token} :
    tokenFault? file size index isLast previous t = none ↔
      (t.kind = .endOfInput → isLast = true) ∧ t.span.file = file ∧
        (t.span.start ≤ t.span.stop ∧ t.span.stop.toNat ≤ size) ∧
        (t.kind ≠ .endOfInput → t.kind ≠ .rawLit → t.span.start < t.span.stop) ∧
        (∀ p ∈ previous, p.span.start < t.span.start) ∧
        (previous.map (·.line)).getD 1 ≤ t.line := by
  unfold tokenFault?
  cases previous with
  | none =>
    simp only [Option.map_none, Option.getD_none, Span.isEmpty]
    grind
  | some p =>
    simp only [Option.map_some, Option.getD_some, Span.isEmpty]
    grind

theorem faultFrom?_eq_none_iff {file : FileId} {content : Text} {index : Nat}
    {previous : Option Token} {toks : List Token} :
    faultFrom? file content.length index previous toks = none ↔
      (∀ t ∈ toks.dropLast, t.kind ≠ .endOfInput) ∧
        toks.Pairwise (·.span.start < ·.span.start) ∧
        (∀ t ∈ toks, t.span.file = file ∧ t.span.start ≤ t.span.stop ∧
          t.span.stop.toNat ≤ content.length) ∧
        (∀ t ∈ toks, t.kind ≠ .endOfInput → t.kind ≠ .rawLit → t.span.start < t.span.stop) ∧
        (∀ p ∈ previous, ∀ t ∈ toks, p.span.start < t.span.start) ∧
        (∀ t ∈ toks, (previous.map (·.line)).getD 1 ≤ t.line) ∧
        toks.Pairwise (·.line ≤ ·.line) := by
  induction toks generalizing index previous with
  | nil => simp [faultFrom?]
  | cons t r ih =>
    have hstep : faultFrom? file content.length index previous (t :: r) = none ↔
        tokenFault? file content.length index r.isEmpty previous t = none ∧
          faultFrom? file content.length (index + 1) (some t) r = none := by
      rw [faultFrom?]
      split <;> simp_all
    have hlast : (∀ u ∈ (t :: r).dropLast, u.kind ≠ .endOfInput) ↔
        (t.kind = .endOfInput → r.isEmpty = true) ∧ ∀ u ∈ r.dropLast, u.kind ≠ .endOfInput := by
      cases r <;> simp
    rw [hstep, tokenFault?_eq_none_iff, ih, hlast]
    simp only [List.pairwise_cons, List.forall_mem_cons, Option.mem_def, Option.some.injEq,
      forall_eq', Option.map_some, Option.getD_some]
    constructor
    · rintro ⟨⟨hend, hfile, hin, hsolid, hprev, hline⟩, hends, hstarts, hinside, hsolids, hnext,
        hlines, hmono⟩
      refine ⟨⟨hend, hends⟩, ⟨hnext, hstarts⟩, ⟨⟨hfile, hin⟩, hinside⟩, ⟨hsolid, hsolids⟩, ?_,
        ⟨hline, ?_⟩, hlines, hmono⟩
      · exact fun p hp => ⟨hprev p hp, fun u hu => UInt32.lt_trans (hprev p hp) (hnext u hu)⟩
      · exact fun u hu => UInt32.le_trans hline (hlines u hu)
    · rintro ⟨⟨hend, hends⟩, ⟨hnext, hstarts⟩, ⟨⟨hfile, hin⟩, hinside⟩, ⟨hsolid, hsolids⟩, hprev,
        ⟨hline, -⟩, hlines, hmono⟩
      exact ⟨⟨hend, hfile, hin, hsolid, fun p hp => (hprev p hp).1, hline⟩, hends, hstarts,
        hinside, hsolids, hnext, hlines, hmono⟩

/-- **What the checker accepts.**  No fault is found exactly in the lists of tokens
that have the shape of a token stream. -/
theorem fault?_eq_none_iff {file : FileId} {content : Text} {toks : List Token} :
    fault? file content toks = none ↔ WellFormed file content toks := by
  rcases List.eq_nil_or_concat toks with rfl | ⟨body, last, rfl⟩
  · refine ⟨nofun, fun h => ?_⟩
    obtain ⟨body, last, h, -⟩ := h.ends
    exact absurd h (by simp)
  · rw [List.concat_eq_append]
    have hsplit : fault? file content (body ++ [last]) = none ↔ last.kind = .endOfInput ∧
        faultFrom? file content.length 0 none (body ++ [last]) = none := by
      rw [fault?, List.getLast?_concat]
      dsimp only
      split <;> simp_all
    rw [hsplit, faultFrom?_eq_none_iff, List.dropLast_concat]
    constructor
    · rintro ⟨hkind, hends, hstarts, hinside, hsolid, -, hfirst, hlines⟩
      exact ⟨⟨body, last, rfl, hkind, hends⟩, hstarts, hinside, hsolid, hfirst, hlines⟩
    · rintro ⟨⟨body', last', heq, hkind, hends⟩, hstarts, hinside, hsolid, hfirst, hlines⟩
      obtain ⟨rfl, hlast⟩ := List.append_inj' heq rfl
      obtain rfl : last = last' := List.singleton_inj.1 hlast
      exact ⟨hkind, hends, hstarts, hinside, hsolid, nofun, hfirst, hlines⟩

section Short

variable {file : FileId} {content : Text} (hshort : content.length < 2 ^ 32 - 1)
include hshort

/-- On a short content the words of a token are the offsets and the line it covers. -/
theorem covers_toNat {a b : Nat} {t : Token} (h : t.Covers file content a b) :
    t.span.start.toNat = a ∧ t.span.stop.toNat = b ∧ t.line.toNat = lineAt content a := by
  have hline := lineAt_le content a
  have ha := h.ordered
  have hb := h.inside
  have hsize : UInt32.size = 2 ^ 32 := rfl
  rw [h.span_eq, h.line_eq]
  exact ⟨UInt32.toNat_ofNat_of_lt' (by omega), UInt32.toNat_ofNat_of_lt' (by omega),
    UInt32.toNat_ofNat_of_lt' (by omega)⟩

theorem covers_inside {a b : Nat} {t : Token} (h : t.Covers file content a b) :
    t.span.file = file ∧ t.span.start ≤ t.span.stop ∧ t.span.stop.toNat ≤ content.length := by
  obtain ⟨hstart, hstop, -⟩ := covers_toNat hshort h
  have ha := h.ordered
  have hb := h.inside
  refine ⟨by rw [h.span_eq], ?_, by omega⟩
  rw [UInt32.le_iff_toNat_le]
  omega

theorem covers_firstLine {a b : Nat} {t : Token} (h : t.Covers file content a b) :
    1 ≤ t.line := by
  obtain ⟨-, -, hline⟩ := covers_toNat hshort h
  rw [UInt32.le_iff_toNat_le, hline, lineAt]
  exact Nat.le_add_right _ _

/-- Tokens read from an offset on stand behind it, on its line or a later one. -/
theorem ReadFrom.behind {pos : Nat} {toks : List Token} (h : ReadFrom file content pos toks) :
    ∀ t ∈ toks, pos ≤ t.span.start.toNat ∧ lineAt content pos ≤ t.line.toNat := by
  induction h with
  | finish inside kind covers =>
    obtain ⟨hstart, -, hline⟩ := covers_toNat hshort covers
    rw [List.forall_mem_singleton, hstart, hline]
    exact ⟨inside, lineAt_mono content inside⟩
  | token after covers behind moved kind solid rest ih =>
    obtain ⟨hstart, -, hline⟩ := covers_toNat hshort covers
    rw [List.forall_mem_cons, hstart, hline]
    refine ⟨⟨after, lineAt_mono content after⟩, fun u hu => ?_⟩
    obtain ⟨h₁, h₂⟩ := ih u hu
    exact ⟨by omega, Nat.le_trans (lineAt_mono content (by omega)) h₂⟩

theorem ReadFrom.wellFormed {pos : Nat} {toks : List Token}
    (h : ReadFrom file content pos toks) : WellFormed file content toks := by
  induction h with
  | finish inside kind covers =>
    exact
      { ends := (ReadFrom.finish inside kind covers).ends
        starts := List.pairwise_singleton ..
        inside := List.forall_mem_singleton.2 (covers_inside hshort covers)
        solid := List.forall_mem_singleton.2 fun hkind => absurd kind hkind
        firstLine := List.forall_mem_singleton.2 (covers_firstLine hshort covers)
        lines := List.pairwise_singleton .. }
  | token after covers behind moved kind solid rest ih =>
    obtain ⟨hstart, hstop, hline⟩ := covers_toNat hshort covers
    exact
      { ends := (ReadFrom.token after covers behind moved kind solid rest).ends
        starts := List.pairwise_cons.2 ⟨fun u hu => by
          have := (rest.behind hshort u hu).1
          rw [UInt32.lt_iff_toNat_lt]
          omega, ih.starts⟩
        inside := List.forall_mem_cons.2 ⟨covers_inside hshort covers, ih.inside⟩
        solid := List.forall_mem_cons.2 ⟨fun _ hraw => by
          have := solid hraw
          rw [UInt32.lt_iff_toNat_lt]
          omega, ih.solid⟩
        firstLine := List.forall_mem_cons.2 ⟨covers_firstLine hshort covers, ih.firstLine⟩
        lines := List.pairwise_cons.2 ⟨fun u hu => by
          have := (rest.behind hshort u hu).2
          have := lineAt_mono content (Nat.le_of_lt moved)
          rw [UInt32.le_iff_toNat_le]
          omega, ih.lines⟩ }

end Short

end TokenStream

/-- **Token-stream invariants.**  Every content shorter than `2 ^ 32 - 1` bytes, valid
UTF-8 or not, is read as a token stream: the checker finds no fault, since the tokens
end with the only end of the input, start further and further on, name the file and
lie inside the content, are empty only where that is allowed, and carry lines that
count from one and never go back. -/
theorem tokenize_wellFormed (file : FileId) (content : Text)
    (hshort : content.length < 2 ^ 32 - 1) :
    TokenStream.fault? file content (tokenize file content).tokens = none ∧
      TokenStream.WellFormed file content (tokenize file content).tokens := by
  have h := (readFrom_tokenize file content).wellFormed hshort
  exact ⟨TokenStream.fault?_eq_none_iff.2 h, h⟩

/-- A raw literal that is empty after trimming, a byte that belongs to no character and a
string with no end are no fault of the stream. -/
theorem tokenize_wellFormed_stray :
    ([0x2D, 0x7B, 0x0A, 0x7D, 0xFF, 0x20, 0x22, 0x41] : Text).length < 2 ^ 32 - 1 ∧
      TokenStream.fault? 0 [0x2D, 0x7B, 0x0A, 0x7D, 0xFF, 0x20, 0x22, 0x41]
        (tokenize 0 [0x2D, 0x7B, 0x0A, 0x7D, 0xFF, 0x20, 0x22, 0x41]).tokens = none :=
  ⟨by decide, (tokenize_wellFormed 0 _ (by decide)).1⟩

end Tarjuman
