/-
# Where findings point

A finding points at a token: the one it is about, one that stands where another was
expected, or the end of the input where nothing else is left.  If the tokens of a
statement stand at places with some property, so do the findings about it
(`Desk.write_within`), and if all tokens of a source do, so do all findings and their
notes (`transpile_within`).  The property
that matters to caches is to lie in one file: every finding about a file lies in that
file and has a level that is in use (`tokenize_within`, `transpile_tokenize_within`).
-/

import Tarjuman.Proofs.TokenStream
import Tarjuman.Proofs.TreeTokens
import Tarjuman.Script.Transpile

namespace Tarjuman

/-- The finding has a level in use, and it and its notes stand at places with `P`. -/
structure Diagnostic.Within (P : Span → Prop) (d : Diagnostic) : Prop where
  known : d.severity.isKnown = true
  place : P d.span
  notes : ∀ n ∈ d.notes, P n.span

section

variable {P : Span → Prop}

theorem Diagnostic.error_within (code : Code) (message : Text) {s : Span} (h : P s) :
    (Diagnostic.error code s message).Within P := ⟨rfl, h, nofun⟩

theorem Diagnostic.warning_within (code : Code) (message : Text) {s : Span} (h : P s) :
    (Diagnostic.warning code s message).Within P := ⟨rfl, h, nofun⟩

/-- Keeping the first of several findings that say the same adds none. -/
theorem Diagnostic.mem_of_mem_distinctFrom {d : Diagnostic} {seen ds : List Diagnostic}
    (h : d ∈ distinctFrom seen ds) : d ∈ ds := by
  fun_induction distinctFrom seen ds with
  | case1 => exact h
  | case2 seen e r _ ih => exact List.mem_cons_of_mem _ (ih h)
  | case3 seen e r _ ih =>
    rcases List.mem_cons.1 h with rfl | h
    · exact List.mem_cons_self
    · exact List.mem_cons_of_mem _ (ih h)

namespace Source.Tokens

variable {src : Source.Tokens}

theorem found_within {found : Option Token} (hfinish : found.isNone = true → P src.finish.span)
    (h : ∀ t ∈ found, P t.span) : P (src.found found).span := by
  cases found with
  | none => exact hfinish rfl
  | some t => exact h t rfl

theorem misplaced_within {m : Misplaced} (hfinish : m.found.isNone = true → P src.finish.span)
    (h : ∀ t ∈ m.found, P t.span) : (src.misplaced m).Within P := by
  rw [misplaced]
  split
  · exact Diagnostic.error_within _ _ (found_within hfinish h)
  · exact Diagnostic.error_within _ _ (found_within hfinish h)

theorem noOperand_within {found : Option Token}
    (hfinish : found.isNone = true → P src.finish.span) (h : ∀ t ∈ found, P t.span) :
    (src.noOperand found).Within P :=
  Diagnostic.error_within _ _ (found_within hfinish h)

end Source.Tokens

namespace Lexicon

variable {lx : Lexicon}

theorem resolve_within {t : Token} (h : P t.span) : ∀ d ∈ (lx.resolve t).2, d.Within P := by
  rw [resolve]
  split
  · exact nofun
  · exact List.forall_mem_singleton.2 (Diagnostic.error_within _ _ h)

mutual
theorem operand_within : ∀ o : Operand, (o.meetsEnd = true → P lx.source.finish.span) →
    (∀ t ∈ o.tokens, P t.span) → ∀ d ∈ (lx.operand o).reports, d.Within P
  | .name t, _, h => by
    rw [operand]
    exact resolve_within (h t (by simp [Operand.tokens]))
  | .literal t, _, _ => by
    rw [operand]
    exact nofun
  | .call name args, hfinish, h => by
    rw [Operand.tokens, List.forall_mem_cons] at h
    have hall : ∀ d ∈ (lx.resolve name).2 ++ (lx.arguments args).2, d.Within P :=
      List.forall_mem_append.2 ⟨resolve_within h.1, arguments_within args hfinish h.2⟩
    rw [operand]
    dsimp only
    split <;> exact hall
  | .missing found, hfinish, h => by
    rw [operand]
    refine List.forall_mem_singleton.2 (Source.Tokens.noOperand_within hfinish fun t ht => ?_)
    exact h t (by simpa [Operand.tokens] using ht)

theorem expr_within : ∀ e : Expr, (e.meetsEnd = true → P lx.source.finish.span) →
    (∀ t ∈ e.tokens, P t.span) → ∀ d ∈ (lx.expr e).reports, d.Within P
  | .single l, hfinish, h => by
    rw [expr]
    exact operand_within l hfinish (by rwa [Expr.tokens] at h)
  | .binary l op r, hfinish, h => by
    rw [Expr.tokens, List.forall_mem_append] at h
    rw [Expr.meetsEnd, Bool.or_eq_true, or_imp] at hfinish
    have hall : ∀ d ∈ (lx.operand l).reports ++ (lx.operand r).reports, d.Within P :=
      List.forall_mem_append.2 ⟨operand_within l hfinish.1 h.1, operand_within r hfinish.2 h.2⟩
    rw [expr]
    split <;> exact hall

theorem arguments_within : ∀ args : Arguments, (args.meetsEnd = true → P lx.source.finish.span) →
    (∀ t ∈ args.tokens, P t.span) → ∀ d ∈ (lx.arguments args).2, d.Within P
  | .done .closed, _, _ => by
    rw [arguments]
    · exact nofun
    · exact nofun
  | .done .endless, _, _ => by
    rw [arguments]
    · exact nofun
    · exact nofun
  | .done (.missing found), hfinish, h => by
    rw [arguments]
    refine List.forall_mem_singleton.2 (Source.Tokens.misplaced_within hfinish fun t ht => ?_)
    exact h t (by simpa [Arguments.tokens, Closing.tokens] using ht)
  | .more e rest, hfinish, h => by
    rw [Arguments.tokens, List.forall_mem_append] at h
    rw [Arguments.meetsEnd, Bool.or_eq_true, or_imp] at hfinish
    rw [arguments]
    exact List.forall_mem_append.2
      ⟨expr_within e hfinish.1 h.1, arguments_within rest hfinish.2 h.2⟩
end

theorem condition_within (c : Condition) (hfinish : c.meetsEnd = true → P lx.source.finish.span)
    (h : ∀ t ∈ c.tokens, P t.span) :
    ∀ d ∈ (lx.condition c).reports, d.Within P := by
  cases c with
  | plain e => exact expr_within e hfinish h
  | compare l op r =>
    rw [Condition.tokens, List.forall_mem_append] at h
    rw [Condition.meetsEnd, Bool.or_eq_true, or_imp] at hfinish
    have hall : ∀ d ∈ (lx.expr l).reports ++ (lx.expr r).reports, d.Within P :=
      List.forall_mem_append.2 ⟨expr_within l hfinish.1 h.1, expr_within r hfinish.2 h.2⟩
    rw [condition]
    split <;> exact hall

end Lexicon

namespace Desk

variable (src : Source.Tokens) (style : Style)

/-- Every open block was opened at a place with `P`. -/
def BlocksWithin (P : Span → Prop) (desk : Desk) : Prop := ∀ b ∈ desk.blocks, P b.opened

theorem blocks_bindParams (desk : Desk) (ts : List Token) :
    (desk.bindParams src style ts).2.2.blocks = desk.blocks := by
  induction ts generalizing desk with
  | nil => rfl
  | cons t r ih => exact ih _

/-- A head opens one block, whatever else is wrong with it. -/
theorem blocks_function (desk : Desk) (keyword : Token) (name : Option Token)
    (params : List Token) (fault : Option Misplaced) :
    (desk.function src style keyword name params fault).desk.blocks =
      ⟨.function, keyword.span⟩ :: desk.blocks := by
  cases name with
  | none => rfl
  | some name => exact blocks_bindParams src style _ params

theorem bind_within (warn : Bool) (desk : Desk) {t : Token} (h : P t.span) :
    ∀ d ∈ (desk.bind src style warn t).2.1, d.Within P := by
  rw [bind]
  refine List.forall_mem_append.2 ⟨?_, ?_⟩
  · split
    · exact List.forall_mem_singleton.2 (Diagnostic.warning_within _ _ h)
    · exact nofun
  · split
    · exact List.forall_mem_singleton.2 (Diagnostic.warning_within _ _ h)
    · exact nofun

theorem bindParams_within (desk : Desk) {ts : List Token} (h : ∀ t ∈ ts, P t.span) :
    ∀ d ∈ (desk.bindParams src style ts).2.1, d.Within P := by
  induction ts generalizing desk with
  | nil => exact nofun
  | cons t r ih =>
    rw [List.forall_mem_cons] at h
    rw [bindParams]
    exact List.forall_mem_append.2 ⟨bind_within src style false desk h.1, ih _ h.2⟩

variable {src}

theorem function_within (desk : Desk) {keyword : Token} {name : Option Token}
    {params : List Token} {fault : Option Misplaced}
    (hfinish : fault.any (·.found.isNone) = true → P src.finish.span)
    (h : ∀ t ∈ (Statement.function keyword name params fault).tokens, P t.span) :
    ∀ d ∈ (desk.function src style keyword name params fault).reports, d.Within P := by
  rw [Statement.tokens, List.forall_mem_cons, List.forall_mem_append, List.forall_mem_append] at h
  obtain ⟨-, ⟨hname, hparams⟩, hfound⟩ := h
  have hfaults : ∀ d ∈ fault.toList.map src.misplaced, d.Within P := by
    cases fault with
    | none => exact List.forall_mem_nil _
    | some m =>
      refine List.forall_mem_singleton.2 (Source.Tokens.misplaced_within hfinish fun t ht => ?_)
      exact hfound t (by simpa using ht)
  cases name with
  | none => exact hfaults
  | some name =>
    have hbind := bind_within src style true (desk.push .function keyword) (hname name (by simp))
    have hmore := bindParams_within src style
      ((desk.push .function keyword).bind src style true name).2.2 hparams
    exact List.forall_mem_append.2 ⟨List.forall_mem_append.2 ⟨hbind, hmore⟩, hfaults⟩

theorem declare_within (desk : Desk) {name : Token} (quoted : Bool) {value : Expr}
    (hfinish : value.meetsEnd = true → P src.finish.span)
    (h : ∀ t ∈ name :: value.tokens, P t.span) :
    ∀ d ∈ (desk.declare src style name quoted value).reports, d.Within P := by
  rw [List.forall_mem_cons] at h
  have hvalue : ∀ d ∈ (Lexicon.expr ⟨src, desk.names⟩ value).reports, d.Within P :=
    Lexicon.expr_within value hfinish h.2
  rw [declare]
  dsimp only
  split
  · exact hvalue
  · exact List.forall_mem_append.2 ⟨hvalue, bind_within src style true desk h.1⟩

/-- **One statement keeps to its places.**  What is reported about a statement stands at
one of its tokens, at the end of the input if it was met or, in a note, where a block was
opened. -/
theorem write_within {desk : Desk} {st : Statement} (hblocks : st = .finish → desk.BlocksWithin P)
    (hfinish : st.meetsEnd = true → P src.finish.span) (h : ∀ t ∈ st.tokens, P t.span) :
    ∀ d ∈ (desk.write src style st).reports, d.Within P := by
  cases st with
  | declare name quoted value => exact declare_within style desk quoted hfinish h
  | print value => exact Lexicon.expr_within value hfinish h
  | function keyword name params fault => exact function_within style desk hfinish h
  | call callee => exact Lexicon.operand_within callee hfinish h
  | assign name value =>
    rw [Statement.tokens, List.forall_mem_cons] at h
    exact List.forall_mem_append.2
      ⟨Lexicon.resolve_within h.1, Lexicon.expr_within value hfinish h.2⟩
  | raw t => exact List.forall_mem_nil _
  | close keyword =>
    rw [write, close]
    split
    · exact List.forall_mem_nil _
    · split
      · exact List.forall_mem_singleton.2
          (Diagnostic.error_within _ _ (h _ (List.mem_singleton_self _)))
      · exact List.forall_mem_nil _
  | whileLoop keyword c =>
    exact Lexicon.condition_within c hfinish (List.forall_mem_cons.1 h).2
  | ifBranch keyword c =>
    exact Lexicon.condition_within c hfinish (List.forall_mem_cons.1 h).2
  | elseBranch keyword =>
    rw [write, otherwise]
    split
    · exact List.forall_mem_nil _
    · split
      · exact List.forall_mem_singleton.2
          (Diagnostic.error_within _ _ (h _ (List.mem_singleton_self _)))
      · exact List.forall_mem_nil _
  | giveBack value =>
    cases value with
    | none => exact List.forall_mem_nil _
    | some value => exact Lexicon.expr_within value hfinish h
  | forLoop keyword => exact List.forall_mem_nil _
  | classHead keyword =>
    exact List.forall_mem_singleton.2
      (Diagnostic.warning_within _ _ (h _ (List.mem_singleton_self _)))
  | broken fault =>
    refine List.forall_mem_singleton.2 (Source.Tokens.misplaced_within hfinish fun t ht => ?_)
    exact h t (by simpa [Statement.tokens] using ht)
  | stray t =>
    exact List.forall_mem_singleton.2
      (Diagnostic.error_within _ _ (h _ (List.mem_singleton_self _)))
  | finish =>
    rw [write, finish]
    dsimp only
    split
    · rw [List.forall_mem_map]
      intro b hb
      exact ⟨rfl, hfinish rfl, List.forall_mem_singleton.2 (hblocks rfl b hb)⟩
    · exact List.forall_mem_nil _

/-- Blocks are opened at tokens of statements, and only there. -/
theorem write_blocksWithin {desk : Desk} (hblocks : desk.BlocksWithin P) (st : Statement)
    (h : ∀ t ∈ st.tokens, P t.span) : (desk.write src style st).desk.BlocksWithin P := by
  cases st with
  | declare name quoted value =>
    rw [write, declare]
    dsimp only
    split <;> exact hblocks
  | function keyword name params fault =>
    rw [write, BlocksWithin, blocks_function]
    exact List.forall_mem_cons.2 ⟨(List.forall_mem_cons.1 h).1, hblocks⟩
  | close keyword =>
    rw [write, close]
    split
    · rename_i b outer hb
      rw [BlocksWithin, hb] at hblocks
      exact (List.forall_mem_cons.1 hblocks).2
    · split <;> exact hblocks
  | whileLoop keyword c =>
    exact List.forall_mem_cons.2 ⟨(List.forall_mem_cons.1 h).1, hblocks⟩
  | ifBranch keyword c =>
    exact List.forall_mem_cons.2 ⟨(List.forall_mem_cons.1 h).1, hblocks⟩
  | elseBranch keyword =>
    rw [write, otherwise]
    split
    · rename_i opened outer hb
      rw [BlocksWithin, hb] at hblocks
      exact List.forall_mem_cons.2 (List.forall_mem_cons.1 hblocks)
    · split <;> exact hblocks
  | giveBack value => cases value <;> exact hblocks
  | finish => exact nofun
  | _ => exact hblocks

/-- **A whole script keeps to its places.**  The step lemmas carry on along the
statements, since the open blocks keep to them too. -/
theorem writeAll_within {desk : Desk} (hfinish : P src.finish.span)
    (hblocks : desk.BlocksWithin P) (ps : List Placed)
    (h : ∀ p ∈ ps, ∀ t ∈ p.statement.tokens, P t.span) :
    ∀ w ∈ desk.writeAll src style ps, ∀ d ∈ w.reports, d.Within P := by
  induction ps generalizing desk with
  | nil => exact nofun
  | cons p r ih =>
    rw [List.forall_mem_cons] at h
    rw [writeAll]
    exact List.forall_mem_cons.2 ⟨write_within style (fun _ => hblocks) (fun _ => hfinish) h.1,
      ih (write_blocksWithin style hblocks p.statement h.1) h.2⟩

end Desk

theorem TokenList.mem_of_mem_body {file : FileId} {ts : List Token} {t : Token}
    (h : t ∈ (TokenList.ofList file ts).body) : t ∈ ts := by
  have hbody : (TokenList.ofList file ts).body = ts.takeWhile (·.kind ≠ .endOfInput) := by
    rw [ofList]
    split <;> rfl
  rw [hbody] at h
  exact (List.takeWhile_prefix _).subset h

/-- Everything that is reported about tokens stands at places that the tokens have. -/
theorem transpile_within (file : FileId) (content : Option Text) (style : Style)
    {ts : List Token} (hfinish : P (TokenList.ofList file ts).finish.span)
    (h : ∀ t ∈ ts, P t.span) : ∀ d ∈ (transpile file content style ts).reports, d.Within P := by
  intro d hd
  obtain ⟨w, hw, hd⟩ := List.mem_flatMap.1 (Diagnostic.mem_of_mem_distinctFrom hd)
  have hblocks : ({} : Desk).BlocksWithin P := nofun
  refine Desk.writeAll_within style hfinish hblocks _ (fun p hp t ht => ?_) w hw d hd
  exact h t (TokenList.mem_of_mem_body ((sublist_tokens_readStatements _ _ p hp).subset ht))

end

/-- Tokens with one end of the input are cut before it. -/
theorem TokenList.ofList_concat (file : FileId) {body : List Token} {last : Token}
    (hbody : ∀ t ∈ body, t.kind ≠ .endOfInput) (hlast : last.kind = .endOfInput) :
    TokenList.ofList file (body ++ [last]) = ⟨body, last, false⟩ := by
  have htake : (body ++ [last]).takeWhile (·.kind ≠ .endOfInput) = body := by
    rw [List.takeWhile_append_of_pos (by simpa using hbody)]
    simp [hlast]
  rw [ofList, htake, List.drop_left]
  rfl

/-- The tokens of a content are cut before their last one, which is the end of the
input. -/
theorem TokenList.ofList_tokenize (file : FileId) (content : Text) :
    ∃ body last, (tokenize file content).tokens = body ++ [last] ∧
      TokenList.ofList file (tokenize file content).tokens = ⟨body, last, false⟩ := by
  obtain ⟨body, last, htokens, hlast, hbody⟩ := (readFrom_tokenize file content).ends
  exact ⟨body, last, htokens, htokens ▸ ofList_concat file hbody hlast⟩

/-- A fetch stays in its file, and so does what it reports. -/
theorem Cursor.fetchHere_within (c : Cursor) :
    c.fetchHere.cursor.file = c.file ∧ ∀ d ∈ c.fetchHere.report, d.Within (·.file = c.file) := by
  have hunclosed (code : Code) (message : Text) :
      ∀ d ∈ (c.unclosed code message).report, d.Within (·.file = c.file) := by
    rintro d ⟨⟩
    exact Diagnostic.error_within _ _ rfl
  rw [fetchHere]
  split
  · exact ⟨rfl, by simp⟩
  · split
    · refine ⟨rfl, fun d hd => ?_⟩
      simp only [take, Option.mem_def, Option.ite_none_right_eq_some, Option.some.injEq] at hd
      obtain ⟨-, rfl⟩ := hd
      exact Diagnostic.error_within _ _ rfl
    · exact ⟨rfl, by simp⟩
    · exact ⟨rfl, hunclosed _ _⟩
    · exact ⟨rfl, hunclosed _ _⟩

theorem Cursor.fetchAll_within (c : Cursor) :
    ∀ f ∈ c.fetchAll, ∀ d ∈ f.report, d.Within (·.file = c.file) := by
  fun_induction fetchAll c with
  | case1 c _ => exact List.forall_mem_singleton.2 c.skipTrivia.fetchHere_within.2
  | case2 c _ ih =>
    obtain ⟨hfile, hreport⟩ := c.skipTrivia.fetchHere_within
    have hnext : c.fetch.cursor.file = c.file := hfile
    rw [hnext] at ih
    exact List.forall_mem_cons.2 ⟨hreport, ih⟩

/-- **Findings of the lexer lie in the file.** -/
theorem tokenize_within (file : FileId) (content : Text) :
    ∀ d ∈ (tokenize file content).reports, d.Within (·.file = file) := by
  intro d hd
  obtain ⟨f, hf, hd⟩ := List.mem_filterMap.1 hd
  exact (Cursor.start file content).fetchAll_within f hf d hd

/-- **Findings of the transpiler lie in the file.** -/
theorem transpile_tokenize_within (file : FileId) (content : Text) (style : Style) :
    ∀ d ∈ (transpile file (some content) style (tokenize file content).tokens).reports,
      d.Within (·.file = file) := by
  have hfile := (readFrom_tokenize file content).file_eq
  obtain ⟨body, last, htokens, hcut⟩ := TokenList.ofList_tokenize file content
  refine transpile_within file _ style ?_ hfile
  rw [hcut]
  exact hfile last (by rw [htokens]; exact List.mem_concat_self)

end Tarjuman
