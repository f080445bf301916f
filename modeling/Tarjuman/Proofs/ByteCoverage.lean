/-
# Every byte is accounted for

Reading a content cuts it into stretches, one behind the other and none of them empty
(`Stretch.Tiles`), so every byte lies in exactly one (`Stretch.Tiles.existsUnique_holds`).
A stretch is one of four things (`Stretch.Accounts`): the span of a token, trivia, a
whole raw literal around the span of its token, or what was reported as a string or raw
literal without an end, which reaches to the end of the content.  The tokens and those
reports are read off the stretches in order, so none belongs to no byte and no byte
belongs to none.
-/

import Tarjuman.Proofs.LexemeText
import Tarjuman.Proofs.TokenStream

namespace Tarjuman

/-- The finding is about a string or a raw literal that is not closed. -/
def Diagnostic.isUnclosed (d : Diagnostic) : Bool :=
  d.code = .openString || d.code = .openRawLiteral

/-- What some bytes were read as. -/
inductive Part where
  /-- A token other than a raw literal. -/
  | token (t : Token)
  /-- Blanks and comments. -/
  | trivia
  /-- A raw literal with its delimiters, which `t` stands for. -/
  | raw (t : Token)
  /-- A string or a raw literal without an end. -/
  | unclosed (d : Diagnostic)

namespace Part

/-- The token that the bytes gave. -/
def token? : Part → Option Token
  | token t | raw t => some t
  | trivia | unclosed _ => none

/-- The report that the bytes gave. -/
def report? : Part → Option Diagnostic
  | unclosed d => some d
  | token _ | trivia | raw _ => none

/-- The span that covers the bytes and no others. -/
def span? : Part → Option Span
  | token t => some t.span
  | unclosed d => some d.span
  | trivia | raw _ => none

end Part

/-- The bytes from the offset `start` up to `stop` and what they were read as. -/
structure Stretch where
  start : Nat
  stop : Nat
  part : Part

namespace Stretch

/-- The offset lies in the stretch. -/
def Holds (p : Stretch) (i : Nat) : Prop := p.start ≤ i ∧ i < p.stop

/-- The bytes of the stretch. -/
def text (p : Stretch) (content : Text) : Text := (content.drop p.start).take (p.stop - p.start)

/-- The bytes of the stretch are what they were read as. -/
def Accounts (file : FileId) (content : Text) (p : Stretch) : Prop :=
  match p.part with
  | .token t => t.kind ≠ .endOfInput ∧ t.kind ≠ .rawLit ∧ t.Covers file content p.start p.stop
  | .trivia => Lexeme.Trivia (p.text content) (content.drop p.stop)
  | .raw t => t.kind = .rawLit ∧ ∃ l core, Lexeme.RawText (p.text content) l core ∧
      t.Covers file content (p.start + (2 + l.length)) (p.start + (2 + l.length + core.length))
  | .unclosed d => d.isUnclosed = true ∧
      d.span = ⟨file, UInt32.ofNat p.start, UInt32.ofNat p.stop⟩ ∧ p.stop = content.length

/-- Stretches that lie one behind the other from `a` up to `b`, none of them empty. -/
inductive Tiles : (a : Nat) → List Stretch → (b : Nat) → Prop where
  | nil (a : Nat) : Tiles a [] a
  | cons {b : Nat} {p : Stretch} {ps : List Stretch} (solid : p.start < p.stop)
      (rest : Tiles p.stop ps b) : Tiles p.start (p :: ps) b

namespace Tiles

variable {a b c : Nat} {ps qs : List Stretch}

theorem single (part : Part) (h : a < b) : Tiles a [⟨a, b, part⟩] b :=
  .cons (p := ⟨a, b, part⟩) h (.nil b)

theorem append (h : Tiles a ps b) (h' : Tiles b qs c) : Tiles a (ps ++ qs) c := by
  induction h with
  | nil => exact h'
  | cons solid _ ih => exact .cons solid (ih h')

theorem bounds (h : Tiles a ps b) : a ≤ b ∧ ∀ p ∈ ps, a ≤ p.start ∧ p.stop ≤ b := by
  induction h with
  | nil a => exact ⟨le_rfl, List.forall_mem_nil _⟩
  | @cons b p ps solid rest ih =>
    obtain ⟨hle, hin⟩ := ih
    refine ⟨by omega, List.forall_mem_cons.2 ⟨⟨le_rfl, hle⟩, fun q hq => ?_⟩⟩
    have := hin q hq
    omega

theorem solid (h : Tiles a ps b) : ∀ p ∈ ps, p.start < p.stop := by
  induction h with
  | nil => exact List.forall_mem_nil _
  | cons solid _ ih => exact List.forall_mem_cons.2 ⟨solid, ih⟩

/-- **Every offset between the ends lies in exactly one of the stretches.** -/
theorem existsUnique_holds (h : Tiles a ps b) {i : Nat} (hle : a ≤ i) (hlt : i < b) :
    ∃! p, p ∈ ps ∧ p.Holds i := by
  induction h with
  | nil => omega
  | @cons b p ps solid rest ih =>
    have hbehind := rest.bounds.2
    rcases Nat.lt_or_ge i p.stop with hi | hi
    · refine ⟨p, ⟨List.mem_cons_self, hle, hi⟩, ?_⟩
      rintro q ⟨hq, hfrom, -⟩
      rcases List.mem_cons.1 hq with rfl | hq
      · rfl
      · have := (hbehind q hq).1
        omega
    · obtain ⟨q, ⟨hq, hholds⟩, hunique⟩ := ih hi hlt
      refine ⟨q, ⟨List.mem_cons_of_mem _ hq, hholds⟩, ?_⟩
      rintro q' ⟨hq', hholds'⟩
      rcases List.mem_cons.1 hq' with rfl | hq'
      · have := hholds'.2
        omega
      · exact hunique q' ⟨hq', hholds'⟩

end Tiles

/-- The words of a span are the offsets of its stretch if the content is short enough for
words to tell them apart. -/
theorem Accounts.toNat_eq {file : FileId} {content : Text} {p : Stretch}
    (h : p.Accounts file content) (hin : p.start ≤ p.stop ∧ p.stop ≤ content.length)
    (hshort : content.length < 2 ^ 32) :
    ∀ s ∈ p.part.span?, s.start.toNat = p.start ∧ s.stop.toNat = p.stop := by
  have hwords : (UInt32.ofNat p.start).toNat = p.start ∧ (UInt32.ofNat p.stop).toNat = p.stop := by
    have hsize : UInt32.size = 2 ^ 32 := rfl
    exact ⟨UInt32.toNat_ofNat_of_lt' (by omega), UInt32.toNat_ofNat_of_lt' (by omega)⟩
  obtain ⟨start, stop, part⟩ := p
  cases part with
  | token t =>
    rintro s ⟨⟩
    rw [h.2.2.span_eq]
    exact hwords
  | unclosed d =>
    rintro s ⟨⟩
    rw [h.2.1]
    exact hwords
  | trivia | raw => rintro s ⟨⟩

end Stretch

/-- The stretches from `a` up to `b` account for some fetches: all their tokens but the end
of the input, and all reports of something that is not closed. -/
structure Accounted (file : FileId) (content : Text) (a b : Nat) (fetched : List Fetch)
    (ps : List Stretch) : Prop where
  tiles : Stretch.Tiles a ps b
  each : ∀ p ∈ ps, p.Accounts file content
  tokens : ps.filterMap (·.part.token?) =
    (fetched.map (·.token)).filter (·.kind ≠ .endOfInput)
  reports : ps.filterMap (·.part.report?) =
    (fetched.filterMap (·.report)).filter (·.isUnclosed)

theorem Accounted.append {file : FileId} {content : Text} {a b c : Nat}
    {fetched fetched' : List Fetch} {ps qs : List Stretch}
    (h : Accounted file content a b fetched ps) (h' : Accounted file content b c fetched' qs) :
    Accounted file content a c (fetched ++ fetched') (ps ++ qs) where
  tiles := h.tiles.append h'.tiles
  each := List.forall_mem_append.2 ⟨h.each, h'.each⟩
  tokens := by
    rw [List.filterMap_append, h.tokens, h'.tokens, List.map_append, List.filter_append]
  reports := by
    rw [List.filterMap_append, h.reports, h'.reports, List.filterMap_append, List.filter_append]

namespace Cursor.At

variable {file : FileId} {content : Text} {pos : Nat} {c : Cursor}

/-- What is passed over before a token is trivia. -/
theorem accounted_skipTrivia (h : c.At file content pos) :
    ∃ ps, Accounted file content pos (pos + Lexeme.triviaSize false c.rest) [] ps := by
  have htrivia := Lexeme.trivia_triviaSize c.rest
  rw [h.rest_eq, List.drop_drop] at htrivia
  rw [h.rest_eq]
  generalize Lexeme.triviaSize false (content.drop pos) = n at htrivia
  cases n with
  | zero => exact ⟨[], .nil _, List.forall_mem_nil _, rfl, rfl⟩
  | succ n =>
    refine ⟨[⟨pos, pos + (n + 1), .trivia⟩], .single _ (by omega), ?_, rfl, rfl⟩
    refine List.forall_mem_singleton.2 ?_
    rw [Stretch.Accounts, Stretch.text]
    simpa using htrivia

/-- A lexeme that is not closed accounts for all that is left. -/
theorem accounted_unclosed (h : c.At file content pos) (hrest : c.rest ≠ []) {code : Code}
    (hcode : code = .openString ∨ code = .openRawLiteral) (message : Text) :
    ∃ ps, Accounted file content pos content.length [c.unclosed code message] ps ∧
      (c.unclosed code message).cursor.At file content content.length := by
  have hlast := h.skip (le_refl c.rest.length)
  have hlen := h.length_rest
  have hpos : 0 < c.rest.length := List.length_pos_iff.2 hrest
  have hend : pos + c.rest.length = content.length := by
    have := h.inside
    omega
  rw [hend] at hlast
  let d := Diagnostic.error code ((c.skip c.rest.length).spanFrom c) message
  have hd : d.isUnclosed = true := by
    rcases hcode with rfl | rfl <;> rfl
  have hspan : d.span = ⟨file, UInt32.ofNat pos, UInt32.ofNat content.length⟩ := by
    show (c.skip c.rest.length).spanFrom c = _
    rw [spanFrom, hlast.file_eq, hlast.off_eq, h.off_eq]
  refine ⟨[⟨pos, content.length, .unclosed d⟩], ⟨.single _ (by omega), ?_, rfl, ?_⟩,
    hlast⟩
  · exact List.forall_mem_singleton.2 ⟨hd, hspan, rfl⟩
  · show [d] = [d].filter (·.isUnclosed)
    rw [List.filter_singleton, hd]
    rfl

/-- A token accounts for the bytes of its span. -/
theorem accounted_take (h : c.At file content pos) {kind : Kind} {size : Nat}
    (hfits : (Lexeme.token kind size).Fits c.rest) :
    ∃ ps, Accounted file content pos (pos + size) [c.take kind size] ps ∧
      (c.take kind size).cursor.At file content (pos + size) := by
  obtain ⟨hpos, hle, hend, hraw⟩ := hfits
  have hnext := h.skip hle
  have hspan := h.span_eq 0 size
  rw [Nat.add_zero, Nat.zero_add] at hspan
  let t : Token := ⟨kind, c.line, c.span 0 size⟩
  have hcovers : t.Covers file content pos (pos + size) :=
    ⟨by omega, hnext.inside, hspan, h.line_eq⟩
  refine ⟨[⟨pos, pos + size, .token t⟩], ⟨.single _ (by omega), ?_, ?_, ?_⟩, hnext⟩
  · exact List.forall_mem_singleton.2 ⟨hend, hraw, hcovers⟩
  · show [t] = [t].filter (·.kind ≠ .endOfInput)
    rw [List.filter_singleton, show t.kind = kind from rfl]
    simp [hend]
  · rw [take]
    split <;> rfl

/-- The token at a cursor behind all trivia accounts for the bytes that are passed over. -/
theorem accounted_fetchHere (h : c.At file content pos) :
    ∃ ps next, Accounted file content pos next [c.fetchHere] ps ∧
      c.fetchHere.cursor.At file content next ∧
      (c.fetchHere.token.kind = .endOfInput → next = content.length) := by
  rw [Cursor.fetchHere]
  split
  · rename_i hrest
    have hlen := h.length_rest
    have hin := h.inside
    rw [hrest, List.length_nil] at hlen
    exact ⟨[], pos, ⟨.nil _, List.forall_mem_nil _, rfl, rfl⟩, h, fun _ => by omega⟩
  · rename_i hrest
    have hfits := Lexeme.read_fits hrest
    split <;> rename_i hread <;> rw [hread] at hfits
    · rename_i kind size
      obtain ⟨ps, hps, hnext⟩ := h.accounted_take hfits
      exact ⟨ps, _, hps, hnext, fun hkind => absurd hkind hfits.2.2.1⟩
    · rename_i lead size total
      obtain ⟨l, core, htext, rfl, rfl⟩ := Lexeme.rawText_of_read hread
      obtain ⟨hlt, hle⟩ := hfits
      have hnext := h.skip hle
      have hin := hnext.inside
      let t : Token := ⟨.rawLit, c.line + lineFeeds (c.rest.take (2 + l.length)),
        c.span (2 + l.length) core.length⟩
      have hcovers : t.Covers file content (pos + (2 + l.length))
          (pos + (2 + l.length + core.length)) :=
        ⟨by omega, by omega, h.span_eq _ _, h.lineFeeds_take _⟩
      refine ⟨[⟨pos, pos + total, .raw t⟩], pos + total,
        ⟨.single _ (by omega), ?_, rfl, rfl⟩, hnext, by simp⟩
      refine List.forall_mem_singleton.2 ⟨rfl, l, core, ?_, hcovers⟩
      rw [Stretch.text, Nat.add_sub_cancel_left, ← h.rest_eq]
      exact htext
    · obtain ⟨ps, hps, hnext⟩ := h.accounted_unclosed hrest (.inl rfl) "unterminated string"
      exact ⟨ps, _, hps, hnext, fun _ => rfl⟩
    · obtain ⟨ps, hps, hnext⟩ :=
        h.accounted_unclosed hrest (.inr rfl) "unterminated raw literal"
      exact ⟨ps, _, hps, hnext, fun _ => rfl⟩

/-- **One fetch accounts for all that it passes over.** -/
theorem accounted_fetch (h : c.At file content pos) :
    ∃ ps next, Accounted file content pos next [c.fetch] ps ∧
      c.fetch.cursor.At file content next ∧
      (c.fetch.token.kind = .endOfInput → next = content.length) := by
  obtain ⟨ps, hps⟩ := h.accounted_skipTrivia
  obtain ⟨qs, next, hqs, hnext, hend⟩ := h.skipTrivia.accounted_fetchHere
  exact ⟨ps ++ qs, next, hps.append hqs, hnext, hend⟩

/-- **Reading to the end accounts for all that is left.** -/
theorem accounted_fetchAll (h : c.At file content pos) :
    ∃ ps, Accounted file content pos content.length c.fetchAll ps := by
  fun_induction Cursor.fetchAll c generalizing pos with
  | case1 c hend =>
    obtain ⟨ps, next, hps, -, hlast⟩ := h.accounted_fetch
    rw [hlast hend] at hps
    exact ⟨ps, hps⟩
  | case2 c _ ih =>
    obtain ⟨ps, next, hps, hnext, -⟩ := h.accounted_fetch
    obtain ⟨qs, hqs⟩ := ih hnext
    exact ⟨ps ++ qs, hps.append hqs⟩

end Cursor.At

/-- **No byte is lost.**  The bytes of a content fall into stretches that lie one behind
the other from its start to its end, so that every offset lies in exactly one of them.
Each is the span of a token, trivia, a whole raw literal, or something that is reported as
not closed and goes on to the end of the content.  In their order they give every token up
to the end of the input and every report of something not closed, each once. -/
theorem tokenize_accounts_for_bytes (file : FileId) (content : Text) :
    ∃ ps : List Stretch,
      Stretch.Tiles 0 ps content.length ∧
      (∀ i < content.length, ∃! p, p ∈ ps ∧ p.Holds i) ∧
      (∀ p ∈ ps, p.Accounts file content) ∧
      (∃ last, last.kind = .endOfInput ∧
        (tokenize file content).tokens = ps.filterMap (·.part.token?) ++ [last]) ∧
      (tokenize file content).reports.filter (·.isUnclosed) = ps.filterMap (·.part.report?) ∧
      (content.length < 2 ^ 32 → ∀ p ∈ ps, ∀ s ∈ p.part.span?,
        s.start.toNat = p.start ∧ s.stop.toNat = p.stop) := by
  obtain ⟨ps, hps⟩ := (Cursor.start_at file content).accounted_fetchAll
  obtain ⟨body, last, htokens, hlast, hbody⟩ := (readFrom_tokenize file content).ends
  have hin := hps.tiles.bounds.2
  refine ⟨ps, hps.tiles, fun i hi => hps.tiles.existsUnique_holds (Nat.zero_le i) hi, hps.each,
    ⟨last, hlast, ?_⟩, hps.reports.symm, fun hshort p hp => ?_⟩
  · have hkept : (tokenize file content).tokens.filter (·.kind ≠ .endOfInput) = body := by
      rw [htokens, List.filter_append, List.filter_eq_self.2 (by simpa using hbody)]
      simp [hlast]
    rw [hps.tokens]
    exact htokens.trans (by rw [← hkept]; rfl)
  · exact (hps.each p hp).toNat_eq ⟨Nat.le_of_lt (hps.tiles.solid p hp), (hin p hp).2⟩ hshort

end Tarjuman
