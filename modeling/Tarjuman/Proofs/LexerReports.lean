/-
# What reading a content reports

Reading reports two things: an identifier that is not valid UTF-8, and a string or a raw
literal that is never closed.  The second takes all that is left of the content, so it comes
last and once.  What one fetch reports is `Cursor.Reports`; going along the content adds up to
a report for each such identifier, in the order of the tokens, and then perhaps one about
something left open (`Cursor.At.findings_fetchAll`).

The offsets between which a valid content is cut are boundaries of its characters
(`Cursor.At.onBoundaries_fetchAll`), and so no identifier of it is reported.
-/

import Mathlib.Algebra.Group.Nat.Defs
import Mathlib.Data.Nat.Basic
import Tarjuman.Proofs.ByteCoverage
import Tarjuman.Proofs.CharacterBoundaries
import Tarjuman.Proofs.LineEnds

namespace Tarjuman

/-- The token is an identifier, and its text is not valid UTF-8. -/
def Token.isMalformed (content : Text) (t : Token) : Bool :=
  t.kind = .ident && !Utf8.isValid (t.text content)

theorem Token.isMalformed_of_endOfInput {t : Token} (h : t.kind = .endOfInput) (content : Text) :
    t.isMalformed content = false := by
  rw [isMalformed, h]
  rfl

namespace Diagnostic

/-- What is reported of an identifier that is not valid UTF-8. -/
def malformed (t : Token) : Diagnostic :=
  .error .unknownCharacter t.span "invalid UTF-8 encoding in identifier"

theorem isUnclosed_malformed (t : Token) : (malformed t).isUnclosed = false := rfl

/-- The finding is about a string or a raw literal that starts at the offset `start` of the
content.  Nothing behind the start closes it, and the finding covers all that is left. -/
inductive LeftOpen (file : FileId) (content : Text) (start : Nat) : Diagnostic → Prop where
  | string {r : Text} (here : content.drop start = Lexeme.quote :: r)
      (never : ∀ body rest, Lexeme.StringBody body → r ≠ body ++ Lexeme.quote :: rest) :
      LeftOpen file content start
        (.error .openString ⟨file, UInt32.ofNat start, UInt32.ofNat content.length⟩
          "unterminated string")
  | rawLiteral {r : Text} (here : content.drop start = Text.ofString "-\x7b" ++ r)
      (never : ∀ inner rest, Lexeme.Balanced inner → r ≠ inner ++ Lexeme.closeBrace :: rest) :
      LeftOpen file content start
        (.error .openRawLiteral ⟨file, UInt32.ofNat start, UInt32.ofNat content.length⟩
          "unterminated raw literal")

namespace LeftOpen

variable {file : FileId} {content : Text} {start : Nat} {d : Diagnostic}

theorem span_eq (h : LeftOpen file content start d) :
    d.span = ⟨file, UInt32.ofNat start, UInt32.ofNat content.length⟩ := by
  cases h <;> rfl

theorem code_ne (h : LeftOpen file content start d) : d.code ≠ .unknownCharacter := by
  cases h with
  | string => exact show Code.openString ≠ .unknownCharacter by decide
  | rawLiteral => exact show Code.openRawLiteral ≠ .unknownCharacter by decide

/-- Something starts there. -/
theorem inside (h : LeftOpen file content start d) : start < content.length := by
  rw [← Nat.not_le, ← List.drop_eq_nil_iff]
  cases h with
  | string here => rw [here]; exact List.cons_ne_nil _ _
  | rawLiteral here => rw [here]; exact List.cons_ne_nil _ _

end LeftOpen

end Diagnostic

/-! ## Nothing closes what is left open -/

namespace Lexeme

theorem stringSize?_body {body : Text} (h : StringBody body) (rest : Text) :
    stringSize? (body ++ quote :: rest) ≠ none := by
  induction h with
  | nil =>
    rw [List.nil_append, stringSize?.eq_def]
    exact Option.some_ne_none 1
  | plain hquote hbackslash more ih =>
    rw [List.cons_append, stringSize?_cons hquote hbackslash]
    exact mt Option.map_eq_none_iff.1 ih
  | hidden b more ih =>
    rw [List.cons_append, List.cons_append, stringSize?_escape]
    exact mt Option.map_eq_none_iff.1 ih

theorem rawSize?_closes {depth : Nat} {s : Text} (h : ClosesBraces depth s) (rest : Text) :
    rawSize? depth (s ++ closeBrace :: rest) ≠ none := by
  induction s generalizing depth with
  | nil =>
    obtain rfl : depth = 0 := by simpa using h.total.symm
    exact Option.some_ne_none 0
  | cons b s ih =>
    cases depth with
    | zero =>
      have hb : b ≠ closeBrace := by
        rintro rfl
        exact absurd (h.never [closeBrace] ⟨s, rfl⟩) (by decide)
      rw [List.cons_append, rawSize?, if_neg (show ¬ (b == Text.byte '}') = true from
        mt beq_iff_eq.1 hb)]
      exact mt Option.map_eq_none_iff.1
        (ih ((closesBraces_cons (count_brace_of_ne hb) s).1 h))
    | succ depth =>
      rw [List.cons_append, rawSize?]
      exact mt Option.map_eq_none_iff.1
        (ih ((closesBraces_cons (count_brace b depth) s).1 h))

/-- What a lexeme can start with. -/
theorem read_cases (s : Text) :
    (∃ r, s = Text.ofString "-\x7b" ++ r ∧ read s = rawLiteral r) ∨
      (∃ r, s = quote :: r ∧ read s = string r) ∨ ∃ kind n, read s = token kind n := by
  have hword : ∃ kind n, word s = token kind n := by
    rw [word]
    split
    · exact ⟨_, _, rfl⟩
    · exact ⟨_, _, rfl⟩
  rw [read]
  split
  · exact .inr (.inr ⟨_, _, rfl⟩)
  · split
    · rename_i r hopen
      exact .inl ⟨r, Text.after?_eq_some_iff.1 hopen, rfl⟩
    · rename_i r _ hquote
      exact .inr (.inl ⟨r, Text.after?_eq_some_iff.1 hquote, rfl⟩)
    · exact .inr (.inr ⟨_, _, rfl⟩)
    · exact .inr (.inr hword)

/-- No quote closes a string that is read as left open. -/
theorem unclosed_of_read_openString {s : Text} (h : read s = openString) :
    ∃ r, s = quote :: r ∧ ∀ body rest, StringBody body → r ≠ body ++ quote :: rest := by
  rcases read_cases s with ⟨r, -, hread⟩ | ⟨r, hs, hread⟩ | ⟨kind, n, hread⟩ <;>
    rw [hread] at h
  · rw [rawLiteral] at h
    split at h <;> cases h
  · rw [string] at h
    split at h
    · rename_i hnone
      refine ⟨r, hs, ?_⟩
      rintro body rest hbody rfl
      exact stringSize?_body hbody rest hnone
    · cases h
  · cases h

/-- No brace closes a raw literal that is read as left open. -/
theorem unclosed_of_read_openRaw {s : Text} (h : read s = openRaw) :
    ∃ r, s = Text.ofString "-\x7b" ++ r ∧
      ∀ inner rest, Balanced inner → r ≠ inner ++ closeBrace :: rest := by
  rcases read_cases s with ⟨r, hs, hread⟩ | ⟨r, -, hread⟩ | ⟨kind, n, hread⟩ <;>
    rw [hread] at h
  · rw [rawLiteral] at h
    split at h
    · rename_i hnone
      refine ⟨r, hs, ?_⟩
      rintro inner rest hinner rfl
      exact rawSize?_closes ⟨hinner.total, hinner.never⟩ rest hnone
    · cases h
  · rw [string] at h
    split at h <;> cases h
  · cases h

end Lexeme

/-! ## One fetch -/

section Short

variable {file : FileId} {content : Text} (hshort : content.length < 2 ^ 32)
include hshort

/-- Words tell the offsets of a content apart. -/
theorem toNat_offset {n : Nat} (h : n ≤ content.length) : (UInt32.ofNat n).toNat = n :=
  UInt32.toNat_ofNat_of_lt' (by rw [show UInt32.size = 2 ^ 32 from rfl]; omega)

theorem Token.Covers.toNat_span {a b : Nat} {t : Token} (h : t.Covers file content a b) :
    t.span.start.toNat = a ∧ t.span.stop.toNat = b := by
  have ha := h.ordered
  have hb := h.inside
  rw [h.span_eq]
  exact ⟨toNat_offset hshort (by omega), toNat_offset hshort hb⟩

theorem Diagnostic.LeftOpen.toNat_span {start : Nat} {d : Diagnostic}
    (h : d.LeftOpen file content start) :
    d.span.start.toNat = start ∧ d.span.stop.toNat = content.length := by
  rw [h.span_eq]
  exact ⟨toNat_offset hshort (Nat.le_of_lt h.inside), toNat_offset hshort le_rfl⟩

end Short

namespace Cursor

/-- What one fetch from the offset `pos` on reports. -/
inductive Reports (file : FileId) (content : Text) (pos : Nat) (f : Fetch) : Prop where
  | token (kind : f.token.kind ≠ .endOfInput)
      (report : f.report = if f.token.isMalformed content then some (.malformed f.token) else none)
  | finish (kind : f.token.kind = .endOfInput) (report : f.report = none)
  | leftOpen {start : Nat} {d : Diagnostic} (kind : f.token.kind = .endOfInput)
      (after : pos ≤ start) (opened : d.LeftOpen file content start) (report : f.report = some d)

namespace At

variable {file : FileId} {content : Text} {pos : Nat} {c : Cursor}

/-- The bytes that a span at the cursor covers. -/
theorem slice_span (h : c.At file content pos) (hshort : content.length < 2 ^ 32) {size : Nat}
    (hle : size ≤ c.rest.length) : (c.span 0 size).slice content = c.rest.take size := by
  have hlen := h.length_rest
  have hin := h.inside
  rw [h.span_eq, Span.slice, toNat_offset hshort (by omega), toNat_offset hshort (by omega),
    Nat.add_zero, Nat.zero_add, Nat.add_sub_cancel_left, h.rest_eq]

/-- Passing over all that is left. -/
theorem skip_rest (h : c.At file content pos) :
    (c.skip c.rest.length).At file content content.length := by
  have hlast := h.skip (le_refl c.rest.length)
  have hend : pos + c.rest.length = content.length := by
    rw [h.length_rest, Nat.add_sub_cancel' h.inside]
  rwa [hend] at hlast

theorem spanFrom_skip_rest (h : c.At file content pos) :
    (c.skip c.rest.length).spanFrom c =
      ⟨file, UInt32.ofNat pos, UInt32.ofNat content.length⟩ := by
  rw [spanFrom, h.skip_rest.file_eq, h.skip_rest.off_eq, h.off_eq]

theorem reports_fetchHere (h : c.At file content pos) (hshort : content.length < 2 ^ 32) :
    Reports file content pos c.fetchHere := by
  have hspan := h.spanFrom_skip_rest
  rw [Cursor.fetchHere]
  split
  · exact .finish rfl rfl
  · rename_i hrest
    have hfits := Lexeme.read_fits hrest
    split <;> rename_i hread <;> rw [hread] at hfits
    · rename_i kind size
      obtain ⟨-, hle, hkind, -⟩ := hfits
      refine .token hkind ?_
      rw [take, Token.isMalformed, Token.text, h.slice_span hshort hle]
      simp [Diagnostic.malformed]
    · exact .token (by simp) (by simp [Token.isMalformed])
    · obtain ⟨r, hr, hnever⟩ := Lexeme.unclosed_of_read_openString hread
      refine .leftOpen rfl le_rfl (.string (h.rest_eq.symm.trans hr) hnever) ?_
      rw [unclosed, hspan]
    · obtain ⟨r, hr, hnever⟩ := Lexeme.unclosed_of_read_openRaw hread
      refine .leftOpen rfl le_rfl (.rawLiteral (h.rest_eq.symm.trans hr) hnever) ?_
      rw [unclosed, hspan]

/-- **What one fetch reports**: a malformed identifier, nothing, or something left open, and
then the input ends. -/
theorem reports_fetch (h : c.At file content pos) (hshort : content.length < 2 ^ 32) :
    Reports file content pos c.fetch := by
  cases h.skipTrivia.reports_fetchHere hshort with
  | token kind report => exact .token kind report
  | finish kind report => exact .finish kind report
  | leftOpen kind after opened report => exact .leftOpen kind (by omega) opened report

end At

/-! ## All fetches -/

/-- What is reported along some fetches from the offset `pos` on: their malformed identifiers
and then what is left open, if anything is. -/
structure Findings (file : FileId) (content : Text) (pos : Nat) (fetched : List Fetch)
    (tail : Option Diagnostic) : Prop where
  reports : fetched.filterMap (·.report) =
    ((fetched.map (·.token)).filter (·.isMalformed content)).map Diagnostic.malformed ++ tail.toList
  leftOpen : ∀ d ∈ tail, ∃ start, d.LeftOpen file content start ∧ pos ≤ start ∧
    ∀ f ∈ fetched, f.token.kind ≠ .endOfInput → f.token.span.stop.toNat ≤ start
  behind : ∀ d ∈ fetched.filterMap (·.report), pos ≤ d.span.start.toNat
  ordered : (fetched.filterMap (·.report)).Pairwise (·.span.start < ·.span.start)

/-- A token before other fetches. -/
theorem Findings.cons {file : FileId} {content : Text} {pos a b next : Nat} {f : Fetch}
    {fetched : List Fetch} {tail : Option Diagnostic}
    (h : Findings file content next fetched tail) (hshort : content.length < 2 ^ 32)
    (after : pos ≤ a) (covers : f.token.Covers file content a b) (behind : b ≤ next)
    (moved : a < next)
    (report : f.report = if f.token.isMalformed content then some (.malformed f.token) else none) :
    Findings file content pos (f :: fetched) tail := by
  obtain ⟨hstart, hstop⟩ := covers.toNat_span hshort
  have hopened : ∀ d ∈ tail, ∃ start, d.LeftOpen file content start ∧ pos ≤ start ∧
      ∀ g ∈ f :: fetched, g.token.kind ≠ .endOfInput → g.token.span.stop.toNat ≤ start := by
    intro d hd
    obtain ⟨start, hleft, hnext, hall⟩ := h.leftOpen d hd
    exact ⟨start, hleft, by omega, List.forall_mem_cons.2 ⟨fun _ => by omega, hall⟩⟩
  -- The reports behind the token start at `next` or later, and the token starts before it.
  have hlater : ∀ d ∈ fetched.filterMap (·.report), a < d.span.start.toNat := by
    intro d hd
    have hd := h.behind d hd
    omega
  have hbehind : ∀ d ∈ fetched.filterMap (·.report), pos ≤ d.span.start.toNat := by
    intro d hd
    have hd := hlater d hd
    omega
  by_cases hmalformed : f.token.isMalformed content = true
  · rw [if_pos hmalformed] at report
    have hspan : (Diagnostic.malformed f.token).span.start.toNat = a := hstart
    refine ⟨?_, hopened, ?_, ?_⟩ <;> rw [List.filterMap_cons_some report]
    · rw [h.reports, List.map_cons, List.filter_cons_of_pos hmalformed, List.map_cons,
        List.cons_append]
    · exact List.forall_mem_cons.2 ⟨hspan ▸ after, hbehind⟩
    · refine List.pairwise_cons.2 ⟨fun d hd => ?_, h.ordered⟩
      rw [UInt32.lt_iff_toNat_lt, hspan]
      exact hlater d hd
  · rw [if_neg hmalformed] at report
    refine ⟨?_, hopened, ?_, ?_⟩ <;> rw [List.filterMap_cons_none report]
    · rw [h.reports, List.map_cons, List.filter_cons_of_neg hmalformed]
    · exact hbehind
    · exact h.ordered

namespace At

variable {file : FileId} {content : Text} {pos : Nat} {c : Cursor}

/-- The last fetch. -/
theorem findings_last (h : c.At file content pos) (hshort : content.length < 2 ^ 32)
    (hend : c.fetch.token.kind = .endOfInput) :
    ∃ tail, Findings file content pos [c.fetch] tail := by
  have hsound := Token.isMalformed_of_endOfInput hend content
  cases h.reports_fetch hshort with
  | token kind _ => exact absurd hend kind
  | finish _ report =>
    refine ⟨none, ?_, by simp, ?_, ?_⟩ <;> simp [report, hsound]
  | @leftOpen start d _ after opened report =>
    have hstart := (opened.toNat_span hshort).1
    refine ⟨some d, by simp [report, hsound], ?_, ?_, by simp [report]⟩
    · rintro _ ⟨⟩
      refine ⟨start, opened, after, List.forall_mem_singleton.2 fun hkind => ?_⟩
      exact absurd hend hkind
    · simpa [report, hstart] using after

/-- **Reading to the end** reports the malformed identifiers one after the other, and at the
end what is left open. -/
theorem findings_fetchAll (h : c.At file content pos) (hshort : content.length < 2 ^ 32) :
    ∃ tail, Findings file content pos c.fetchAll tail := by
  fun_induction Cursor.fetchAll c generalizing pos with
  | case1 c hend => exact h.findings_last hshort hend
  | case2 c hend ih =>
    cases h.fetch with
    | finish kind _ _ => exact absurd kind hend
    | token after covers behind moved kind solid cursor =>
      obtain ⟨tail, hlater⟩ := ih cursor
      cases h.reports_fetch hshort with
      | finish kind _ => exact absurd kind hend
      | leftOpen kind _ _ _ => exact absurd kind hend
      | token _ report => exact ⟨tail, hlater.cons hshort after covers behind moved report⟩

end At
end Cursor

/-! ## Boundaries -/

/-- The span starts and stops at boundaries of the content. -/
def Span.OnBoundaries (content : Text) (s : Span) : Prop :=
  Utf8.Boundary content s.start.toNat ∧ Utf8.Boundary content s.stop.toNat

/-- The spans of what was fetched start and stop at boundaries. -/
structure Fetch.OnBoundaries (content : Text) (f : Fetch) : Prop where
  token : f.token.span.OnBoundaries content
  report : ∀ d ∈ f.report, d.span.OnBoundaries content

namespace Cursor.At

variable {file : FileId} {content : Text} {pos : Nat} {c : Cursor}

theorem drop_eq (h : c.At file content pos) (n : Nat) :
    content.drop pos = c.rest.take n ++ c.rest.drop n := by
  rw [List.take_append_drop, h.rest_eq]

/-- Valid bytes lead from a boundary to another. -/
theorem boundary_skip (h : c.At file content pos) (hpos : Utf8.Boundary content pos) {n : Nat}
    (hle : n ≤ c.rest.length) (hvalid : Utf8.isValid (c.rest.take n) = true) :
    Utf8.Boundary content (pos + n) := by
  have hnext := hpos.add (h.drop_eq n) hvalid
  rwa [List.length_take_of_le hle] at hnext

/-- A token other than a raw literal ends at a boundary. -/
theorem boundary_token (h : c.At file content pos) (hpos : Utf8.Boundary content pos)
    (hrest : c.rest ≠ []) (htrivia : Lexeme.triviaSize false c.rest = 0) {kind : Kind} {size : Nat}
    (hread : Lexeme.read c.rest = .token kind size) : Utf8.Boundary content (pos + size) := by
  have hfits := Lexeme.read_fits hrest
  rw [hread] at hfits
  obtain ⟨-, hle, -, hraw⟩ := hfits
  have hspelled := Lexeme.spelled_of_read hrest htrivia hread
  exact h.boundary_skip hpos hle
    (Lexeme.isValid_of_spelled hspelled hraw (h.drop_eq size ▸ hpos.isValid_drop))

/-- A raw literal ends at a boundary, and so does what is kept of it on both sides. -/
theorem boundary_raw (h : c.At file content pos) (hpos : Utf8.Boundary content pos)
    {lead size total : Nat} (hle : total ≤ c.rest.length)
    (hread : Lexeme.read c.rest = .raw lead size total) :
    Utf8.Boundary content (pos + lead) ∧ Utf8.Boundary content (pos + (lead + size)) ∧
      Utf8.Boundary content (pos + total) := by
  obtain ⟨l, core, htext, rfl, rfl⟩ := Lexeme.rawText_of_read hread
  have hsplit := h.drop_eq total
  obtain ⟨hwhole, front, behind, hcut, hfront, hfrontValid, hcore⟩ :=
    htext.valid (hsplit ▸ hpos.isValid_drop)
  have hnext := h.boundary_skip hpos hle hwhole
  rw [hcut, List.append_assoc] at hsplit
  have hstart := hpos.add hsplit hfrontValid
  have hkept : content.drop (pos + front.length) = core ++ (behind ++ c.rest.drop total) := by
    rw [← List.drop_drop, hsplit, List.drop_left, List.append_assoc]
  have hstop := hstart.add hkept hcore
  rw [hfront] at hstart hstop
  rw [Nat.add_assoc] at hstop
  exact ⟨hstart, hstop, hnext⟩

theorem onBoundaries_span (h : c.At file content pos) (hshort : content.length < 2 ^ 32)
    {lead size : Nat} (hle : lead + size ≤ c.rest.length)
    (hstart : Utf8.Boundary content (pos + lead))
    (hstop : Utf8.Boundary content (pos + (lead + size))) :
    (c.span lead size).OnBoundaries content := by
  have hlen := h.length_rest
  have hin := h.inside
  rw [h.span_eq, Span.OnBoundaries, toNat_offset hshort (by omega),
    toNat_offset hshort (by omega)]
  exact ⟨hstart, hstop⟩

theorem onBoundaries_endToken (h : c.At file content pos) (hshort : content.length < 2 ^ 32)
    (hpos : Utf8.Boundary content pos) : c.endToken.span.OnBoundaries content := by
  obtain ⟨hstart, hstop⟩ := h.covers_endToken.toNat_span hshort
  rw [Span.OnBoundaries, hstart, hstop]
  exact ⟨hpos, hpos⟩

/-- At the end of a content stands a boundary, and what is left open goes up to it. -/
theorem onBoundaries_unclosed (h : c.At file content pos) (hshort : content.length < 2 ^ 32)
    (hpos : Utf8.Boundary content pos) (hend : Utf8.Boundary content content.length) (code : Code)
    (message : Text) : (c.unclosed code message).OnBoundaries content := by
  refine ⟨h.skip_rest.onBoundaries_endToken hshort hend, ?_⟩
  rintro d ⟨⟩
  rw [Diagnostic.error, h.spanFrom_skip_rest, Span.OnBoundaries, toNat_offset hshort h.inside,
    toNat_offset hshort le_rfl]
  exact ⟨hpos, hend⟩

theorem onBoundaries_take (h : c.At file content pos) (hshort : content.length < 2 ^ 32)
    {kind : Kind} {size : Nat} (hle : size ≤ c.rest.length) (hstart : Utf8.Boundary content pos)
    (hstop : Utf8.Boundary content (pos + size)) : (c.take kind size).OnBoundaries content := by
  have hspan : (c.span 0 size).OnBoundaries content :=
    h.onBoundaries_span hshort (by omega) hstart (by rwa [Nat.zero_add])
  refine ⟨hspan, fun d hd => ?_⟩
  rw [take] at hd
  split at hd
  · cases hd
    exact hspan
  · cases hd

/-- From a boundary on, behind all trivia, a fetch goes to another boundary. -/
theorem onBoundaries_fetchHere (h : c.At file content pos) (hshort : content.length < 2 ^ 32)
    (hpos : Utf8.Boundary content pos) (hend : Utf8.Boundary content content.length)
    (htrivia : Lexeme.triviaSize false c.rest = 0) :
    c.fetchHere.OnBoundaries content ∧
      ∃ next, c.fetchHere.cursor.At file content next ∧ Utf8.Boundary content next := by
  rw [Cursor.fetchHere]
  split
  · exact ⟨⟨h.onBoundaries_endToken hshort hpos, by simp⟩, pos, h, hpos⟩
  · rename_i hrest
    have hfits := Lexeme.read_fits hrest
    split <;> rename_i hread <;> rw [hread] at hfits
    · have hle := hfits.2.1
      have hstop := h.boundary_token hpos hrest htrivia hread
      exact ⟨h.onBoundaries_take hshort hle hpos hstop, _, h.skip hle, hstop⟩
    · obtain ⟨hlt, hle⟩ := hfits
      obtain ⟨hstart, hstop, hnext⟩ := h.boundary_raw hpos hle hread
      exact ⟨⟨h.onBoundaries_span hshort (by omega) hstart hstop, by simp⟩, _, h.skip hle, hnext⟩
    · exact ⟨h.onBoundaries_unclosed hshort hpos hend _ _, _, h.skip_rest, hend⟩
    · exact ⟨h.onBoundaries_unclosed hshort hpos hend _ _, _, h.skip_rest, hend⟩

/-- **A fetch goes from boundary to boundary.** -/
theorem onBoundaries_fetch (h : c.At file content pos) (hshort : content.length < 2 ^ 32)
    (hpos : Utf8.Boundary content pos) (hend : Utf8.Boundary content content.length) :
    c.fetch.OnBoundaries content ∧
      ∃ next, c.fetch.cursor.At file content next ∧ Utf8.Boundary content next := by
  have htrivia := (Lexeme.trivia_triviaSize c.rest).valid (h.drop_eq _ ▸ hpos.isValid_drop)
  exact h.skipTrivia.onBoundaries_fetchHere hshort
    (h.boundary_skip hpos (Lexeme.triviaSize_le false c.rest) htrivia) hend
    (Lexeme.triviaSize_drop false c.rest)

/-- **Reading a valid content to the end** cuts it at boundaries only. -/
theorem onBoundaries_fetchAll (h : c.At file content pos) (hshort : content.length < 2 ^ 32)
    (hpos : Utf8.Boundary content pos) (hend : Utf8.Boundary content content.length) :
    ∀ f ∈ c.fetchAll, f.OnBoundaries content := by
  fun_induction Cursor.fetchAll c generalizing pos with
  | case1 c _ => exact List.forall_mem_singleton.2 (h.onBoundaries_fetch hshort hpos hend).1
  | case2 c _ ih =>
    obtain ⟨hhere, next, hnext, hboundary⟩ := h.onBoundaries_fetch hshort hpos hend
    exact List.forall_mem_cons.2 ⟨hhere, ih hnext hboundary⟩

end Cursor.At

/-- A token between two boundaries is not malformed. -/
theorem Token.isMalformed_of_onBoundaries {file : FileId} {content : Text} {a b : Nat} {t : Token}
    (hshort : content.length < 2 ^ 32) (hcovers : t.Covers file content a b)
    (h : t.span.OnBoundaries content) : t.isMalformed content = false := by
  obtain ⟨hstart, hstop⟩ := hcovers.toNat_span hshort
  obtain ⟨n, rfl⟩ := Nat.exists_eq_add_of_le hcovers.ordered
  rw [Span.OnBoundaries, hstart, hstop] at h
  have hvalid := h.1.isValid_between h.2
  rw [Token.isMalformed, Token.text, Span.slice, hstart, hstop, Nat.add_sub_cancel_left, hvalid,
    Bool.not_true, Bool.and_false]

/-- **Exactly what is reported.**  Every content that words can index is read with one report
for each identifier whose text is not valid UTF-8, at the span of that token and in the order of
the tokens, and then at most one report of a string or a raw literal without an end: it starts
at the quote or at `-{`, nothing behind closes it, it goes up to the end of the content, and
every token but the end of the input stops before it.  Where there is no such report, closed
lexemes and trivia make up the whole content.  Reports start further and further on.  If the
content is valid UTF-8, no identifier is reported, and the spans of all tokens and reports start
and stop at boundaries of characters. -/
theorem tokenize_reports_exactly (file : FileId) (content : Text)
    (hshort : content.length < 2 ^ 32) :
    (∃ tail : Option Diagnostic,
      (tokenize file content).reports =
        ((tokenize file content).tokens.filter (·.isMalformed content)).map Diagnostic.malformed ++
          tail.toList ∧
      (∀ d ∈ tail, ∃ start, d.LeftOpen file content start ∧
        ∀ t ∈ (tokenize file content).tokens, t.kind ≠ .endOfInput →
          t.span.stop.toNat ≤ start) ∧
      (tail = none → ∃ ps : List Stretch, Stretch.Tiles 0 ps content.length ∧
        ∀ p ∈ ps, p.Accounts file content ∧ p.part.report? = none)) ∧
    (tokenize file content).reports.Pairwise (·.span.start < ·.span.start) ∧
    (Utf8.isValid content = true →
      (∀ d ∈ (tokenize file content).reports, d.code ≠ .unknownCharacter) ∧
      (∀ t ∈ (tokenize file content).tokens, t.span.OnBoundaries content) ∧
      ∀ d ∈ (tokenize file content).reports, d.span.OnBoundaries content) := by
  have hat := Cursor.start_at file content
  obtain ⟨tail, hreports, hopen, -, hordered⟩ := hat.findings_fetchAll hshort
  refine ⟨⟨tail, hreports, ?_, ?_⟩, hordered, fun hvalid => ?_⟩
  · intro d hd
    obtain ⟨start, hleft, -, hall⟩ := hopen d hd
    exact ⟨start, hleft, List.forall_mem_map.2 hall⟩
  · rintro rfl
    obtain ⟨ps, hps⟩ := hat.accounted_fetchAll
    have hnone : ps.filterMap (·.part.report?) = [] := by
      rw [hps.reports, hreports, Option.toList_none, List.append_nil, List.filter_eq_nil_iff]
      exact List.forall_mem_map.2 fun t _ => Bool.eq_false_iff.1 (Diagnostic.isUnclosed_malformed t)
    exact ⟨ps, hps.tiles, fun p hp => ⟨hps.each p hp, List.filterMap_eq_nil_iff.1 hnone p hp⟩⟩
  · have hbounds := hat.onBoundaries_fetchAll hshort (Utf8.boundary_zero hvalid)
      (Utf8.boundary_length hvalid)
    have htokens : ∀ t ∈ (tokenize file content).tokens, t.span.OnBoundaries content :=
      List.forall_mem_map.2 fun f hf => (hbounds f hf).token
    have hsound : (tokenize file content).tokens.filter (·.isMalformed content) = [] := by
      rw [List.filter_eq_nil_iff]
      intro t ht
      obtain ⟨a, b, hcovers⟩ := (readFrom_tokenize file content).exists_covers t ht
      rw [Token.isMalformed_of_onBoundaries hshort hcovers (htokens t ht)]
      exact Bool.false_ne_true
    refine ⟨fun d hd => ?_, htokens, fun d hd => ?_⟩
    · change (tokenize file content).reports =
        ((tokenize file content).tokens.filter _).map _ ++ _ at hreports
      rw [hreports, hsound, List.map_nil, List.nil_append, Option.mem_toList] at hd
      obtain ⟨start, hleft, -⟩ := hopen d hd
      exact hleft.code_ne
    · obtain ⟨f, hf, hreport⟩ := List.mem_filterMap.1 hd
      exact (hbounds f hf).report d hreport

/-- A byte that belongs to no character, then a string without an end; and a valid content that
ends inside a raw literal. -/
theorem tokenize_reports_exactly_unclosed :
    ([0xFF, 0x20, 0x22, 0x41] : Text).length < 2 ^ 32 ∧
      (tokenize 0 [0xFF, 0x20, 0x22, 0x41]).reports =
        [.error .unknownCharacter ⟨0, 0, 1⟩ "invalid UTF-8 encoding in identifier",
          .error .openString ⟨0, 2, 4⟩ "unterminated string"] ∧
      (tokenize 0 [0xFF, 0x20, 0x22, 0x41]).reports.Pairwise (·.span.start < ·.span.start) ∧
      ("س -\x7b س" : Text).length < 2 ^ 32 ∧ Utf8.isValid "س -\x7b س" = true ∧
      (tokenize 0 "س -\x7b س").reports =
        [.error .openRawLiteral ⟨0, 3, 8⟩ "unterminated raw literal"] ∧
      ∀ d ∈ (tokenize 0 "س -\x7b س").reports, d.span.OnBoundaries "س -\x7b س" :=
  ⟨by decide, by decide +kernel, (tokenize_reports_exactly 0 _ (by decide)).2.1, by decide,
    by decide +kernel, by decide +kernel,
    ((tokenize_reports_exactly 0 _ (by decide)).2.2 (by decide)).2.2⟩

end Tarjuman
