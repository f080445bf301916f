/-
# The order of findings

The readers go over the tokens once and from left to right, and what there is to report
about a tree comes up in the order of its tokens: if some findings are in order and none is
in front of the tokens that a reader leaves, they are still in order behind the findings
about what it read, and none is in front of the tokens it was given (`ReadsExpr.follow`,
`follow_readStatement`).

There is one exception.  The name of a declared variable is bound behind its value, so that
the value cannot refer to it, and the warnings about the name come behind what is reported
about the value (`AfterValue`).  No other finding comes behind one that stands further on
(`reports_in_order`).
-/

import Mathlib
import Tarjuman.Proofs.ReadingEnds
import Tarjuman.Proofs.ReportPlaces
import Tarjuman.Proofs.SpellingChoice

namespace Tarjuman

/-- Each token starts no further on than those behind it. -/
def TokenStream.Ascends (ts : List Token) : Prop := ts.Pairwise (·.span.start ≤ ·.span.start)

/-- The findings are in order, but for pairs that may be `late`, and none stands in front of
the tokens. -/
structure Diagnostic.Follow (late : Diagnostic → Diagnostic → Prop) (ts : List Token)
    (ds : List Diagnostic) : Prop where
  inOrder : ds.Pairwise fun a b => a.span.start ≤ b.span.start ∨ late a b
  behind : ∀ d ∈ ds, ∀ t ∈ ts.head?, t.span.start ≤ d.span.start

open TokenStream (Ascends)
open Diagnostic (Follow)

section

variable {late : Diagnostic → Diagnostic → Prop} {ds : List Diagnostic} {trap : Bool}

namespace Diagnostic.Follow

theorem nil (ts : List Token) : Follow late ts [] := ⟨.nil, List.forall_mem_nil _⟩

/-- Findings about the first token come in front of all that follow it. -/
theorem reports_of_span {t : Token} {r : List Token} {es : List Diagnostic}
    (h : Follow late (t :: r) ds) (hes : ∀ d ∈ es, d.span = t.span) :
    Follow late (t :: r) (es ++ ds) := by
  have hstart : ∀ d ∈ es, d.span.start = t.span.start := fun d hd => by rw [hes d hd]
  refine ⟨List.pairwise_append.2 ⟨?_, h.inOrder, fun a ha b hb => .inl ?_⟩, ?_⟩
  · refine List.pairwise_of_forall_mem_list fun a ha b hb => .inl ?_
    rw [hstart a ha, hstart b hb]
    exact UInt32.le_refl _
  · rw [hstart a ha]
    exact h.behind b hb t rfl
  · refine List.forall_mem_append.2 ⟨fun d hd u hu => ?_, h.behind⟩
    obtain rfl := Option.some.inj hu
    rw [hstart d hd]
    exact UInt32.le_refl _

theorem reports {t : Token} {r : List Token} {es : List Diagnostic} (h : Follow late (t :: r) ds)
    (hes : ∀ d ∈ es, d.Within (· = t.span)) : Follow late (t :: r) (es ++ ds) :=
  h.reports_of_span fun d hd => (hes d hd).place

/-- What follows the last of some tokens follows them all. -/
theorem of_suffix {finish : Token} {ts rest : List Token} (hts : Ascends (ts ++ [finish]))
    (hrest : rest <:+ ts) (h : Follow late (rest ++ [finish]) ds) :
    Follow late (ts ++ [finish]) ds := by
  refine ⟨h.inOrder, fun d hd t ht => ?_⟩
  obtain ⟨own, rfl⟩ := hrest
  cases own with
  | nil => exact h.behind d hd t ht
  | cons u own =>
    obtain rfl := Option.some.inj ht
    obtain ⟨next, r, hnext⟩ := List.exists_cons_of_ne_nil (List.concat_ne_nil finish rest)
    refine UInt32.le_trans ?_ (h.behind d hd next (by rw [hnext]; rfl))
    refine List.rel_of_pairwise_cons hts (List.mem_append.2 ?_)
    rcases List.mem_append.1 (hnext ▸ List.mem_cons_self : next ∈ rest ++ [finish]) with hn | hn
    · exact .inl (List.mem_append_right own hn)
    · exact .inr hn

end Diagnostic.Follow

theorem TokenStream.Ascends.of_suffix {finish : Token} {ts rest : List Token}
    (hts : Ascends (ts ++ [finish])) (hrest : rest <:+ ts) : Ascends (rest ++ [finish]) :=
  hts.sublist (hrest.sublist.append_right _)

/-! ## Expressions -/

namespace Source.Tokens

variable {src : Source.Tokens}

/-- A finding about the token that was passed over in the place of another. -/
theorem misplaced_follow {kind : Kind} {ts rest : List Token} {fault : Misplaced}
    {le : rest.length ≤ ts.length} (heq : expect kind ts = ⟨.error fault, rest, le⟩)
    (hts : Ascends (ts ++ [src.finish])) (h : Follow late (rest ++ [src.finish]) ds) :
    Follow late (ts ++ [src.finish]) (src.misplaced fault :: ds) := by
  have hfound := expect_error heq
  cases hf : fault.found with
  | none =>
    have hrest := rest_of_expect_error heq (by rw [hf]; rfl)
    rw [hf, hrest] at hfound
    subst hfound hrest
    have hone : ∀ d ∈ [src.misplaced fault], d.Within (· = src.finish.span) :=
      List.forall_mem_singleton.2 (misplaced_within (fun _ => rfl) (by simp [hf]))
    exact h.reports hone
  | some t =>
    rw [hf] at hfound
    subst hfound
    have hskip : Follow late (t :: rest ++ [src.finish]) ds :=
      h.of_suffix hts (List.suffix_cons t rest)
    have hone : ∀ d ∈ [src.misplaced fault], d.Within (· = t.span) :=
      List.forall_mem_singleton.2 (misplaced_within (by simp [hf]) (by simp [hf]))
    exact hskip.reports hone

end Source.Tokens

variable (lx : Lexicon)

mutual
theorem ReadsOperand.follow {ts rest : List Token} {o : Operand} {ds : List Diagnostic} :
    ReadsOperand trap ts o rest → Ascends (ts ++ [lx.source.finish]) →
      Follow late (rest ++ [lx.source.finish]) ds →
      Follow late (ts ++ [lx.source.finish]) ((lx.operand o).reports ++ ds)
  | .nothing, _, h => by
    rw [Lexicon.operand]
    exact h.reports (List.forall_mem_singleton.2
      (Source.Tokens.noOperand_within (fun _ => rfl) (by simp)))
  | .name (t := t) (r := r) _ _, hts, h => by
    have hskip : Follow late (t :: r ++ [lx.source.finish]) ds :=
      h.of_suffix hts (List.suffix_cons t r)
    rw [Lexicon.operand]
    exact hskip.reports (Lexicon.resolve_within rfl)
  | @ReadsOperand.call _ t p r _ args _ _ inner, hts, h => by
    have hsuffix : r <:+ t :: p :: r := (List.suffix_cons p r).trans (List.suffix_cons t _)
    have hinner := inner.follow (hts.of_suffix hsuffix) h
    have hskip : Follow late (t :: p :: r ++ [lx.source.finish]) ((lx.arguments args).2 ++ ds) :=
      hinner.of_suffix hts hsuffix
    have hname : ∀ d ∈ (lx.resolve t).2, d.Within (· = t.span) := Lexicon.resolve_within rfl
    have hall := hskip.reports hname
    rw [← List.append_assoc] at hall
    rw [Lexicon.operand]
    dsimp only
    split <;> exact hall
  | .literal (t := t) (r := r) _ _, hts, h => by
    rw [Lexicon.operand]
    exact h.of_suffix hts (List.suffix_cons t r)
  | .missing (t := t) (r := r) _, hts, h => by
    have hskip : Follow late (t :: r ++ [lx.source.finish]) ds :=
      h.of_suffix hts (List.suffix_cons t r)
    rw [Lexicon.operand]
    exact hskip.reports (List.forall_mem_singleton.2
      (Source.Tokens.noOperand_within (by simp) (by simp)))

theorem ReadsArguments.follow {ts rest : List Token} {args : Arguments} {ds : List Diagnostic} :
    ReadsArguments trap ts args rest → Ascends (ts ++ [lx.source.finish]) →
      Follow late (rest ++ [lx.source.finish]) ds →
      Follow late (ts ++ [lx.source.finish]) ((lx.arguments args).2 ++ ds)
  | .none (c := c) (r := r) _, hts, h => by
    rw [Lexicon.arguments]
    · exact h.of_suffix hts (List.suffix_cons c r)
    · simp
  | .some _ inner, hts, h => inner.follow hts h

theorem ReadsArgument.follow {ts rest : List Token} {args : Arguments} {ds : List Diagnostic} :
    ReadsArgument trap ts args rest → Ascends (ts ++ [lx.source.finish]) →
      Follow late (rest ++ [lx.source.finish]) ds →
      Follow late (ts ++ [lx.source.finish]) ((lx.arguments args).2 ++ ds)
  | .atEnd (e := e) first, hts, h => by
    rw [Lexicon.arguments, List.append_assoc]
    refine first.follow hts ?_
    split
    · rw [Lexicon.arguments]
      · exact h
      · simp
    · rw [Lexicon.arguments]
      exact h.reports (List.forall_mem_singleton.2
        (Source.Tokens.misplaced_within (fun _ => rfl) (by simp)))
  | .next (c := c) (r := r) first _ more, hts, h => by
    have hnext := hts.of_suffix first.suffix
    have hmore := more.follow (hnext.of_suffix (List.suffix_cons c r)) h
    rw [Lexicon.arguments, List.append_assoc]
    exact first.follow hts (hmore.of_suffix hnext (List.suffix_cons c r))
  | .last (c := c) (r := r) first _, hts, h => by
    rw [Lexicon.arguments, List.append_assoc]
    refine first.follow hts ?_
    rw [Lexicon.arguments]
    · exact h.of_suffix (hts.of_suffix first.suffix) (List.suffix_cons c r)
    · simp
  | .other (c := c) (r := r) first _ _, hts, h => by
    have hskip : Follow late (c :: r ++ [lx.source.finish]) ds :=
      h.of_suffix (hts.of_suffix first.suffix) (List.suffix_cons c r)
    rw [Lexicon.arguments, List.append_assoc]
    refine first.follow hts ?_
    rw [Lexicon.arguments]
    exact hskip.reports (List.forall_mem_singleton.2
      (Source.Tokens.misplaced_within (by simp) (by simp)))

theorem ReadsExpr.follow {ts rest : List Token} {e : Expr} {ds : List Diagnostic} :
    ReadsExpr trap ts e rest → Ascends (ts ++ [lx.source.finish]) →
      Follow late (rest ++ [lx.source.finish]) ds →
      Follow late (ts ++ [lx.source.finish]) ((lx.expr e).reports ++ ds)
  | .single left _, hts, h => by
    rw [Lexicon.expr]
    exact left.follow hts h
  | @ReadsExpr.binary _ _ r _ _ _ op left _ _ second, hts, h => by
    have hnext := hts.of_suffix left.suffix
    have hsecond := second.follow (hnext.of_suffix (List.suffix_cons op r)) h
    have hall := left.follow hts (hsecond.of_suffix hnext (List.suffix_cons op r))
    rw [← List.append_assoc] at hall
    rw [Lexicon.expr]
    split <;> exact hall
end

theorem ReadsCondition.follow {ts rest : List Token} {c : Condition}
    (hread : ReadsCondition trap ts c rest) (hts : Ascends (ts ++ [lx.source.finish]))
    (h : Follow late (rest ++ [lx.source.finish]) ds) :
    Follow late (ts ++ [lx.source.finish]) ((lx.condition c).reports ++ ds) := by
  cases hread with
  | plain left _ => exact left.follow lx hts h
  | @compare r _ _ _ op left _ _ second =>
    have hnext := hts.of_suffix left.suffix
    have hsecond := second.follow lx (hnext.of_suffix (List.suffix_cons op r)) h
    have hall := left.follow lx hts (hsecond.of_suffix hnext (List.suffix_cons op r))
    rw [← List.append_assoc] at hall
    rw [Lexicon.condition]
    split <;> exact hall

theorem ReadsArgument.not_meetsEnd {ts rest : List Token} {args : Arguments} :
    ReadsArgument trap ts args rest → args.closing = .closed → args.meetsEnd = false
  | .atEnd (e := e) _, h => by
    rw [Arguments.closing, Arguments.closing] at h
    split at h <;> cases h
  | .next first _ more, h => by
    have hfirst := Bool.eq_false_iff.2 fun he => List.cons_ne_nil _ _ (first.rest_of_meetsEnd he)
    rw [Arguments.meetsEnd, hfirst, more.not_meetsEnd h]
    rfl
  | .last first _, _ => by
    have hfirst := Bool.eq_false_iff.2 fun he => List.cons_ne_nil _ _ (first.rest_of_meetsEnd he)
    rw [Arguments.meetsEnd, hfirst]
    rfl
  | .other _ _ _, h => by cases h

theorem ReadsOperand.not_meetsEnd {ts rest : List Token} {o : Operand}
    (hread : ReadsOperand trap ts o rest) (hwhole : o.isWhole = true) : o.meetsEnd = false := by
  cases hread with
  | nothing => cases hwhole
  | name _ _ => rfl
  | call _ _ inner =>
    cases inner with
    | none _ => rfl
    | some _ inner => exact inner.not_meetsEnd (of_decide_eq_true hwhole)
  | literal _ _ => rfl
  | missing _ => rfl

/-- **What is whole does not reach the end of the input.** -/
theorem ReadsExpr.not_meetsEnd {ts rest : List Token} {e : Expr}
    (hread : ReadsExpr trap ts e rest) (hwhole : e.isWhole = true) : e.meetsEnd = false := by
  cases hread with
  | single left _ => exact left.not_meetsEnd hwhole
  | binary left _ _ second =>
    rw [Expr.isWhole, Bool.and_eq_true] at hwhole
    rw [Expr.meetsEnd, left.not_meetsEnd hwhole.1, second.not_meetsEnd hwhole.2]
    rfl

/-! ## Statements -/

/-- The finding `b` is a warning about the name of a declared variable, and `a` is about the
value of the variable. -/
structure AfterValue (name : Token) (value : Expr) (a b : Diagnostic) : Prop where
  warning : b.code = .redeclared ∨ b.code = .renameCollision
  atName : b.span = name.span
  inValue : ∃ t ∈ value.tokens, a.span = t.span

/-- Findings that may come late go between others and what follows these. -/
theorem Diagnostic.Follow.insert {ts : List Token} {es fs : List Diagnostic}
    (h : Follow late ts (ds ++ fs)) (hes : Follow late ts (es ++ fs))
    (hlate : ∀ a ∈ ds, ∀ b ∈ es, late a b) : Follow late ts (ds ++ es ++ fs) := by
  obtain ⟨hds, -, hcross⟩ := List.pairwise_append.1 h.inOrder
  have hbehind := (List.forall_mem_append.1 h.behind).1
  rw [List.append_assoc]
  refine ⟨List.pairwise_append.2 ⟨hds, hes.inOrder, fun a ha => ?_⟩,
    List.forall_mem_append.2 ⟨hbehind, hes.behind⟩⟩
  exact List.forall_mem_append.2 ⟨fun b hb => .inr (hlate a ha b hb), hcross a ha⟩

namespace Desk

variable {src : Source.Tokens} (style : Style)

theorem code_of_mem_bind {warn : Bool} {desk : Desk} {t : Token} :
    ∀ d ∈ (desk.bind src style warn t).2.1, d.code = .redeclared ∨ d.code = .renameCollision := by
  rw [bind]
  refine List.forall_mem_append.2 ⟨?_, ?_⟩
  · split
    · exact List.forall_mem_singleton.2 (.inl rfl)
    · exact List.forall_mem_nil _
  · split
    · exact List.forall_mem_singleton.2 (.inr rfl)
    · exact List.forall_mem_nil _

/-- The warnings about a name come behind what is reported about its value. -/
theorem declare_follow (desk : Desk) {name eq : Token} (quoted : Bool) {value : Expr}
    {r rest : List Token} (hread : ReadsExpr trap r value rest)
    (hlate : ∀ a b, AfterValue name value a b → late a b)
    (hts : Ascends (name :: eq :: r ++ [src.finish])) (h : Follow late (rest ++ [src.finish]) ds) :
    Follow late (name :: eq :: r ++ [src.finish])
      ((desk.declare src style name quoted value).reports ++ ds) := by
  have hsuffix : r <:+ name :: eq :: r := (List.suffix_cons eq r).trans (List.suffix_cons name _)
  have hvalue : Follow late (r ++ [src.finish])
      ((Lexicon.expr ⟨src, desk.names⟩ value).reports ++ ds) :=
    hread.follow ⟨src, desk.names⟩ (hts.of_suffix hsuffix) h
  have hall := hvalue.of_suffix hts hsuffix
  have hwhole := Lexicon.isSome_text_expr ⟨src, desk.names⟩ value
  rw [declare]
  dsimp only
  split
  · exact hall
  · rename_i text htext
    rw [htext] at hwhole
    have hskip : Follow late (name :: eq :: r ++ [src.finish]) ds :=
      h.of_suffix hts (hread.suffix.trans hsuffix)
    refine hall.insert (hskip.reports (bind_within src style true desk rfl)) fun a ha b hb => ?_
    have hplace := Lexicon.expr_within (P := fun s => ∃ t ∈ value.tokens, s = t.span) value
      (fun hend => absurd hend (Bool.eq_false_iff.1 (hread.not_meetsEnd hwhole.symm)))
      (fun t ht => ⟨t, ht, rfl⟩) a ha
    exact hlate a b ⟨code_of_mem_bind style b hb,
      (bind_within src style true desk (P := (· = name.span)) rfl b hb).place, hplace.place⟩

theorem follow_readMoreParams (desk : Desk) (ts : List Token)
    (hts : Ascends (ts ++ [src.finish]))
    (h : Follow late ((readMoreParams ts).rest ++ [src.finish]) ds) :
    Follow late (ts ++ [src.finish])
      ((desk.bindParams src style (readMoreParams ts).value.1).2.1 ++
        ((readMoreParams ts).value.2.toList.map src.misplaced ++ ds)) := by
  fun_induction readMoreParams ts generalizing desk with
  | case1 => exact h
  | case2 c r _ fault rest le heq =>
    have hsuffix := List.suffix_cons c r
    exact (Source.Tokens.misplaced_follow heq (hts.of_suffix hsuffix) h).of_suffix hts hsuffix
  | case3 c r _ p rest le heq more =>
    rename_i ih
    obtain ⟨rfl, -⟩ := expect_ok heq
    have hsuffix := List.suffix_cons c (p :: rest)
    have hparams := hts.of_suffix hsuffix
    have hmore := ih (desk.bind src style false p).2.2
      (hparams.of_suffix (List.suffix_cons p rest)) h
    have hskip : Follow late (p :: rest ++ [src.finish]) _ :=
      hmore.of_suffix hparams (List.suffix_cons p rest)
    have hall := (hskip.reports (bind_within src style false desk rfl)).of_suffix hts hsuffix
    rw [← List.append_assoc] at hall
    exact hall
  | case4 => exact h

theorem follow_readParams (desk : Desk) (ts : List Token) (hts : Ascends (ts ++ [src.finish]))
    (h : Follow late ((readParams ts).rest ++ [src.finish]) ds) :
    Follow late (ts ++ [src.finish])
      ((desk.bindParams src style (readParams ts).value.1).2.1 ++
        ((readParams ts).value.2.toList.map src.misplaced ++ ds)) := by
  cases ts with
  | nil => exact h
  | cons p r =>
    rw [readParams] at h ⊢
    split at h
    · rename_i hp
      rw [if_pos hp]
      have hsuffix := List.suffix_cons p r
      have hmore := follow_readMoreParams style (desk.bind src style false p).2.2 r
        (hts.of_suffix hsuffix) h
      have hskip : Follow late (p :: r ++ [src.finish]) _ := hmore.of_suffix hts hsuffix
      have hall := hskip.reports (bind_within src style false desk rfl)
      rw [← List.append_assoc] at hall
      exact hall
    · rename_i hp
      rw [if_neg hp]
      exact h

theorem function_follow (desk : Desk) {keyword name : Token} {r : List Token}
    {params : List Token} {fault : Option Misplaced} (hts : Ascends (name :: r ++ [src.finish]))
    (h : ∀ desk : Desk, Follow late (r ++ [src.finish])
      ((desk.bindParams src style params).2.1 ++ (fault.toList.map src.misplaced ++ ds))) :
    Follow late (name :: r ++ [src.finish])
      ((desk.function src style keyword (some name) params fault).reports ++ ds) := by
  have hskip : Follow late (name :: r ++ [src.finish]) _ :=
    (h ((desk.push .function keyword).bind src style true name).2.2).of_suffix hts
      (List.suffix_cons name r)
  have hall := hskip.reports
    (bind_within src style true (desk.push .function keyword) (P := (· = name.span)) rfl)
  rw [← List.append_assoc, ← List.append_assoc] at hall
  exact hall

theorem follow_readFunction (desk : Desk) (keyword : Token) (ts : List Token)
    (hts : Ascends (ts ++ [src.finish]))
    (h : Follow late ((readFunction keyword ts).rest ++ [src.finish]) ds) :
    Follow late (ts ++ [src.finish])
      ((desk.write src style (readFunction keyword ts).value).reports ++ ds) := by
  rw [readFunction] at h ⊢
  split at h
  · rename_i heq
    exact Source.Tokens.misplaced_follow heq hts h
  · rename_i name r₁ le₁ heq₁
    obtain ⟨rfl, -⟩ := expect_ok heq₁
    have hts₁ := hts.of_suffix (List.suffix_cons name r₁)
    split at h
    · rename_i heq
      exact function_follow style desk hts fun _ => Source.Tokens.misplaced_follow heq hts₁ h
    · rename_i paren r₂ le₂ heq₂
      obtain ⟨rfl, -⟩ := expect_ok heq₂
      have hsuffix := List.suffix_cons paren r₂
      have hts₂ := hts₁.of_suffix hsuffix
      have hparams (desk : Desk) {es : List Diagnostic}
          (h : Follow late ((readParams r₂).rest ++ [src.finish]) es) :=
        (follow_readParams style desk r₂ hts₂ h).of_suffix hts₁ hsuffix
      split at h
      · rename_i params fault rest le heq
        rw [heq] at hparams
        exact function_follow style desk hts fun desk => hparams desk h
      · rename_i params r₃ le₃ heq₃
        rw [heq₃] at hparams
        have hts₃ : Ascends (r₃ ++ [src.finish]) :=
          hts₂.of_suffix (by have := suffix_readParams r₂; rwa [heq₃] at this)
        split at h
        · rename_i heq
          exact function_follow style desk hts fun desk =>
            hparams desk (Source.Tokens.misplaced_follow heq hts₃ h)
        · rename_i close rest le heq
          obtain ⟨rfl, -⟩ := expect_ok heq
          exact function_follow style desk hts fun desk =>
            hparams desk (h.of_suffix hts₃ (List.suffix_cons close rest))

theorem follow_readVariable (desk : Desk) (ts : List Token) (hts : Ascends (ts ++ [src.finish]))
    (hlate : ∀ name quoted value, (readVariable trap ts).value = .declare name quoted value →
      ∀ a b, AfterValue name value a b → late a b)
    (h : Follow late ((readVariable trap ts).rest ++ [src.finish]) ds) :
    Follow late (ts ++ [src.finish])
      ((desk.write src style (readVariable trap ts).value).reports ++ ds) := by
  rw [readVariable] at h hlate ⊢
  split at h
  · rename_i heq
    exact Source.Tokens.misplaced_follow heq hts h
  · rename_i name r₁ le₁ heq₁
    obtain ⟨rfl, -⟩ := expect_ok heq₁
    split at h
    · rename_i heq
      have hsuffix := List.suffix_cons name r₁
      exact (Source.Tokens.misplaced_follow heq (hts.of_suffix hsuffix) h).of_suffix hts hsuffix
    · rename_i eq r₂ le₂ heq₂
      obtain ⟨rfl, -⟩ := expect_ok heq₂
      rw [heq₁] at hlate
      dsimp only at hlate
      rw [heq₂] at hlate
      exact declare_follow style desk _ (readsExpr trap r₂) (hlate name _ _ rfl) hts h

theorem follow_readPrint (desk : Desk) (ts : List Token) (hts : Ascends (ts ++ [src.finish]))
    (h : Follow late ((readPrint trap ts).rest ++ [src.finish]) ds) :
    Follow late (ts ++ [src.finish])
      ((desk.write src style (readPrint trap ts).value).reports ++ ds) := by
  rw [readPrint] at h ⊢
  split at h
  · rename_i hstarts
    rw [if_pos hstarts]
    exact (readsExpr trap ts).follow ⟨src, desk.names⟩ hts h
  · rename_i hstarts
    rw [if_neg hstarts]
    cases ts with
    | nil =>
      exact h.reports (List.forall_mem_singleton.2
        (Source.Tokens.misplaced_within (fun _ => rfl) (by simp)))
    | cons t r =>
      have hskip : Follow late (t :: r ++ [src.finish]) ds :=
        h.of_suffix hts (List.suffix_cons t r)
      exact hskip.reports (List.forall_mem_singleton.2
        (Source.Tokens.misplaced_within (by simp) (by simp)))

theorem follow_readCallOrAssign (desk : Desk) {name : Token} (hname : name.kind = .ident)
    (ts : List Token) (hts : Ascends (name :: ts ++ [src.finish]))
    (h : Follow late ((readCallOrAssign trap name ts).rest ++ [src.finish]) ds) :
    Follow late (name :: ts ++ [src.finish])
      ((desk.write src style (readCallOrAssign trap name ts).value).reports ++ ds) := by
  have hts₁ := hts.of_suffix (List.suffix_cons name ts)
  cases ts with
  | nil =>
    refine Diagnostic.Follow.of_suffix hts (List.suffix_cons name []) ?_
    exact h.reports (List.forall_mem_singleton.2
      (Source.Tokens.misplaced_within (fun _ => rfl) (by simp)))
  | cons t r =>
    rw [readCallOrAssign] at h ⊢
    split at h
    · rename_i ht
      rw [if_pos ht]
      exact (ReadsOperand.call hname ht (readsArguments trap r)).follow ⟨src, desk.names⟩ hts h
    · rename_i ht
      rw [if_neg ht]
      split at h
      · rename_i hassign
        rw [if_pos hassign]
        have hsuffix := List.suffix_cons t r
        have hvalue := (readsExpr trap r).follow ⟨src, desk.names⟩ (hts₁.of_suffix hsuffix) h
        have hskip : Follow late (name :: t :: r ++ [src.finish]) _ :=
          hvalue.of_suffix hts (hsuffix.trans (List.suffix_cons name _))
        have hresolve : ∀ d ∈ (Lexicon.resolve ⟨src, desk.names⟩ name).2,
            d.Within (· = name.span) := Lexicon.resolve_within rfl
        have hall := hskip.reports hresolve
        rw [← List.append_assoc] at hall
        exact hall
      · rename_i hassign
        rw [if_neg hassign]
        refine Diagnostic.Follow.of_suffix hts (List.suffix_cons name _) ?_
        exact h.reports (List.forall_mem_singleton.2
          (Source.Tokens.misplaced_within (by simp) (by simp)))

/-- **What there is to report about a statement is in order.**  It stands in front of all that
follows what the statement leaves. -/
theorem follow_readStatement (desk : Desk) (t : Token) (ts : List Token)
    (hts : Ascends (t :: ts ++ [src.finish]))
    (hlate : ∀ name quoted value, (readStatement trap t ts).value = .declare name quoted value →
      ∀ a b, AfterValue name value a b → late a b)
    (h : Follow late ((readStatement trap t ts).rest ++ [src.finish]) ds) :
    Follow late (t :: ts ++ [src.finish])
      ((desk.write src style (readStatement trap t ts).value).reports ++ ds) := by
  have hsuffix := List.suffix_cons t ts
  have hts₁ := hts.of_suffix hsuffix
  have hskip (h : Follow late (ts ++ [src.finish]) ds) : Follow late (t :: ts ++ [src.finish]) ds :=
    h.of_suffix hts hsuffix
  have hcondition (h : Follow late ((readCondition trap ts).rest ++ [src.finish]) ds) :=
    ((readsCondition trap ts).follow ⟨src, desk.names⟩ hts₁ h).of_suffix hts hsuffix
  rw [readStatement] at h hlate ⊢
  split at h
  · rename_i hkind
    rw [hkind] at hlate
    exact (follow_readVariable style desk ts hts₁ hlate h).of_suffix hts hsuffix
  · exact (follow_readPrint style desk ts hts₁ h).of_suffix hts hsuffix
  · exact (follow_readFunction style desk t ts hts₁ h).of_suffix hts hsuffix
  · rename_i hkind
    exact follow_readCallOrAssign style desk hkind ts hts h
  · exact hskip h
  · rw [write, close]
    split
    · exact hskip h
    · split
      · exact (hskip h).reports (List.forall_mem_singleton.2 (Diagnostic.error_within _ _ rfl))
      · exact hskip h
  · exact hcondition h
  · exact hcondition h
  · rw [write, otherwise]
    split
    · exact hskip h
    · split
      · exact (hskip h).reports (List.forall_mem_singleton.2 (Diagnostic.error_within _ _ rfl))
      · exact hskip h
  · split at h
    · rename_i hstarts
      rw [if_pos hstarts]
      exact ((readsExpr trap ts).follow ⟨src, desk.names⟩ hts₁ h).of_suffix hts hsuffix
    · rename_i hstarts
      rw [if_neg hstarts]
      exact hskip h
  · exact hskip h
  · exact (hskip h).reports (List.forall_mem_singleton.2 (Diagnostic.warning_within _ _ rfl))
  · exact (hskip h).reports (List.forall_mem_singleton.2 (Diagnostic.error_within _ _ rfl))

theorem finish_follow (desk : Desk) :
    Follow late [src.finish] (desk.finish src style).reports := by
  have hall : ∀ d ∈ (desk.finish src style).reports, d.span = src.finish.span := by
    rw [finish]
    dsimp only
    split
    · exact List.forall_mem_map.2 fun _ _ => rfl
    · exact List.forall_mem_nil _
  have hnone : Follow late [src.finish] [] := .nil _
  have hfinish := hnone.reports_of_span hall
  rwa [List.append_nil] at hfinish

/-- **The findings about statements are in order.** -/
theorem follow_writeAll (src : Source.Tokens) (desk : Desk) (ts : List Token)
    (hts : Ascends (ts ++ [src.finish]))
    (hlate : ∀ p ∈ readStatements trap ts, ∀ name quoted value,
      p.statement = .declare name quoted value → ∀ a b, AfterValue name value a b → late a b) :
    Follow late (ts ++ [src.finish])
      ((desk.writeAll src style (readStatements trap ts)).flatMap (·.reports)) := by
  fun_induction readStatements trap ts generalizing desk with
  | case1 =>
    rw [writeAll, writeAll, List.flatMap_singleton]
    exact finish_follow style desk
  | case2 t r s ih =>
    have hrest := (suffix_readStatement trap t r).trans (List.suffix_cons t r)
    rw [List.forall_mem_cons] at hlate
    rw [writeAll, List.flatMap_cons]
    exact follow_readStatement style desk t r hts hlate.1
      (ih _ (hts.of_suffix hrest) hlate.2)

end Desk

end

/-! ## Sources -/

/-- Tokens that are read from an offset on start there or further on, each in front of the
next. -/
theorem TokenStream.ReadFrom.ascends {file : FileId} {content : Text}
    (hsize : content.length < 2 ^ 32) {pos : Nat} {ts : List Token}
    (h : ReadFrom file content pos ts) :
    (∀ t ∈ ts, pos ≤ t.span.start.toNat) ∧ Ascends ts := by
  have hstart {a b : Nat} {t : Token} (h : t.Covers file content a b) :
      t.span.start.toNat = a := by
    rw [h.span_eq]
    exact UInt32.toNat_ofNat_of_lt' (Nat.lt_of_le_of_lt (h.ordered.trans h.inside) hsize)
  induction h with
  | finish inside kind covers =>
    exact ⟨List.forall_mem_singleton.2 (hstart covers ▸ inside), List.pairwise_singleton _ _⟩
  | token after covers behind moved kind solid rest ih =>
    have ht := hstart covers
    refine ⟨List.forall_mem_cons.2 ⟨by omega, fun u hu => ?_⟩,
      List.pairwise_cons.2 ⟨fun u hu => ?_, ih.2⟩⟩
    · have hu := ih.1 u hu
      omega
    · have hu := ih.1 u hu
      rw [UInt32.le_iff_toNat_le]
      omega

theorem Diagnostic.sublist_distinctFrom (seen ds : List Diagnostic) :
    (distinctFrom seen ds).Sublist ds := by
  fun_induction distinctFrom seen ds with
  | case1 => exact List.Sublist.refl _
  | case2 seen d r _ ih => exact ih.cons d
  | case3 seen d r _ ih => exact ih.cons_cons d

/-- One of the statements declares a variable, `b` is a warning about its name, and `a` is
about its value. -/
def NamedAfterValue (ps : List Placed) (a b : Diagnostic) : Prop :=
  ∃ p ∈ ps, ∃ name quoted value, p.statement = .declare name quoted value ∧
    AfterValue name value a b

/-- **Findings come in the order of the source**, however a script is written, but for the
warnings about the name of a declared variable, which come behind what is reported about its
value. -/
theorem reports_in_order (file : FileId) {content : Text} (hsize : content.length < 2 ^ 32)
    (style : Style) :
    ∃ script,
      transpile? file (some content) style (tokenize file content).tokens = some script ∧
        script.reports.Pairwise fun a b => a.span.start ≤ b.span.start ∨
          NamedAfterValue (TokenList.ofList file (tokenize file content).tokens).statements
            a b := by
  obtain ⟨body, last, htokens, hcut⟩ := TokenList.ofList_tokenize file content
  have hts : Ascends (body ++ [last]) :=
    htokens ▸ ((readFrom_tokenize file content).ascends hsize).2
  have hends : isEndless file (tokenize file content).tokens = false :=
    not_isEndless_of_trap (by rw [hcut])
  refine ⟨_, by rw [transpile?, hends]; rfl, ?_⟩
  rw [transpile, hcut]
  have hfollow : Follow (NamedAfterValue (readStatements false body)) (body ++ [last])
      ((Desk.writeAll ⟨some content, last⟩ style {} (readStatements false body)).flatMap
        (·.reports)) :=
    Desk.follow_writeAll style ⟨some content, last⟩ {} body hts
      fun p hp name quoted value hdeclare a b hab => ⟨p, hp, name, quoted, value, hdeclare, hab⟩
  exact hfollow.inOrder.sublist (Diagnostic.sublist_distinctFrom [] _)

/-- A variable is declared for the second time, with a value that names an unbound one. -/
def redeclaredFromUnbound : Text := "شيء ا = 1\nشيء ا = ب"

section

set_option maxRecDepth 4096

theorem starts_redeclaredFromUnbound :
    (transpile 0 (some redeclaredFromUnbound) {}
      (tokenize 0 redeclaredFromUnbound).tokens).reports.map (·.span.start) = [26, 21] := by
  cbv

end

theorem reports_in_order_redeclared :
    redeclaredFromUnbound.length < 2 ^ 32 ∧
      (transpile 0 (some redeclaredFromUnbound) {}
        (tokenize 0 redeclaredFromUnbound).tokens).reports.map (·.span.start) = [26, 21] ∧
      ∃ script ∈ transpile? 0 (some redeclaredFromUnbound) {}
          (tokenize 0 redeclaredFromUnbound).tokens,
        script.reports.Pairwise fun a b => a.span.start ≤ b.span.start ∨
          NamedAfterValue (TokenList.ofList 0 (tokenize 0 redeclaredFromUnbound).tokens).statements
            a b := by
  have hsize : redeclaredFromUnbound.length < 2 ^ 32 := by decide
  exact ⟨hsize, starts_redeclaredFromUnbound, reports_in_order 0 hsize {}⟩

/-- The warning that a variable is declared again comes behind the error about its value, which
stands further on. -/
theorem redeclaration_reported_late :
    ¬ (transpile 0 (some redeclaredFromUnbound) {}
      (tokenize 0 redeclaredFromUnbound).tokens).reports.Pairwise
        (·.span.start ≤ ·.span.start) := by
  intro h
  have hstarts := List.pairwise_map.2 h
  rw [starts_redeclaredFromUnbound] at hstarts
  exact absurd hstarts (by decide)

end Tarjuman
