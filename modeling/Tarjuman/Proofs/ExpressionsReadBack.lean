/-
# Written expressions are read back

The text of an expression that was written without an error has one tree in the grammar of
`Tarjuman.Proofs.ScriptGrammar`, and it is the tree that the tokens of the expression denote
(`Tarjuman.Proofs.DenotedTrees`): the same operator, the same operands in order, the same calls
with all their arguments.  The proof follows the rules of reading (`ReadsExpr.renders`): each
rule takes some tokens, and without an error they denote the tree of the text that is written
for what was read.  This holds of every expression of a source that is written in Latin
spellings, arguments of calls at any depth included, and of every condition
(`expressions_read_back`).
-/

import Mathlib
import Tarjuman.Proofs.BoundBeforeUse
import Tarjuman.Proofs.Characters
import Tarjuman.Proofs.DenotedTrees
import Tarjuman.Proofs.ErrorFree
import Tarjuman.Proofs.NumberValues
import Tarjuman.Proofs.SilentStatements

namespace Tarjuman

open Target

/-! ## Names and literals -/

namespace Lexicon

/-- The tokens are those of a content, and the bound names are in their Latin spellings. -/
structure InLatin (lx : Lexicon) (content : Text) : Prop where
  content_eq : lx.source.content = some content
  lookup_eq : ∀ raw spelling, lx.names.lookup raw = some spelling → spelling = Latin.rename raw

variable {lx : Lexicon} {content : Text}

theorem InLatin.text_eq (h : lx.InLatin content) (t : Token) :
    lx.source.text t = t.text content := by
  rw [Source.Tokens.text, h.content_eq]

/-- A name that is not reported is spelled in Latin. -/
theorem InLatin.resolve_eq (h : lx.InLatin content) {t : Token}
    (hnone : NoErrors (lx.resolve t).2) : (lx.resolve t).1 = Latin.rename (t.text content) := by
  rw [resolve] at hnone ⊢
  split at hnone
  · rename_i spelling hlookup
    rw [← h.text_eq]
    exact h.lookup_eq _ _ hlookup
  · exact absurd hnone (not_noErrors_error _ _ _ _)

theorem kind_of_literal {kind : Kind} (hident : kind ≠ .ident)
    (hstarts : kind.startsOperand = true) :
    kind = .stringLit ∨ kind = .numberLit ∨ kind = .kwTrue ∨ kind = .kwFalse ∨ kind = .kwNil := by
  cases kind <;> simp_all [Kind.startsOperand]

/-- **A literal is written as the leaf that its token denotes.** -/
theorem InLatin.parses_literal (h : lx.InLatin content) {t : Token} (hident : t.kind ≠ .ident)
    (hstarts : t.kind.startsOperand = true) (ht : t.HasSpelling content) :
    ∃ l, Leaf.ofToken? content t = some l ∧ ParsesLeaf (lx.literal t) l := by
  obtain ⟨rest, hspelled⟩ := ht
  rw [Leaf.ofToken?, literal, h.text_eq]
  rcases kind_of_literal hident hstarts with hkind | hkind | hkind | hkind | hkind <;>
    rw [hkind] at hspelled ⊢
  · exact ⟨_, rfl, .string hspelled⟩
  · obtain ⟨hwritten, hnumeral⟩ := numeral_of_number hspelled
    refine ⟨_, rfl, ?_⟩
    dsimp only
    rw [hwritten]
    exact .number hnumeral
  · exact ⟨_, rfl, .yes⟩
  · exact ⟨_, rfl, .no⟩
  · exact ⟨_, rfl, .nothing⟩

end Lexicon

/-! ## Expressions inside expressions -/

mutual
/-- The expressions inside an operand. -/
def Operand.nested : Operand → List Expr
  | .call _ args => args.nested
  | .name _ | .literal _ | .missing _ => []
/-- An expression and those inside it. -/
def Expr.nested : Expr → List Expr
  | .single l => .single l :: l.nested
  | .binary l op r => .binary l op r :: (l.nested ++ r.nested)
/-- The arguments and the expressions inside them. -/
def Arguments.nested : Arguments → List Expr
  | .done _ => []
  | .more e rest => e.nested ++ rest.nested
end

/-- The expressions of a condition. -/
def Condition.nested : Condition → List Expr
  | .plain e => e.nested
  | .compare l _ r => l.nested ++ r.nested

namespace Statement

/-- All expressions of a statement; a call is one too. -/
def exprs : Statement → List Expr
  | .declare _ _ value | .print value | .assign _ value | .giveBack (some value) => value.nested
  | .call callee => (Expr.single callee).nested
  | .whileLoop _ c | .ifBranch _ c => c.nested
  | _ => []

/-- The condition of a statement that has one. -/
def condition? : Statement → Option Condition
  | .whileLoop _ c | .ifBranch _ c => some c
  | _ => none

end Statement

namespace Target

/-- The operands among tokens: no operators, commas and parentheses. -/
def operandsOf (ts : List Token) : List Token := ts.filter (·.kind.startsOperand)

/-- Among the tokens `ts` there are some, one behind the other, that have the operands
`operands`, and they denote one tree, which is the one tree of the text. -/
def ReadsBack {α : Type} (denotes : List Token → α → Prop) (parses : Text → α → Prop)
    (ts operands : List Token) (text : Option Text) : Prop :=
  ∃ own s tree, own <:+: ts ∧ operandsOf own = operands ∧ text = some s ∧
    (∀ other, denotes own other ↔ other = tree) ∧ ∀ other, parses s other ↔ other = tree

/-- The tokens `own` have the operands `operands`, and they denote the tree of the text. -/
structure Renders {α : Type} (denotes : List Token → α → Prop) (parses : Text → α → Prop)
    (own operands : List Token) (text : Option Text) (tree : α) : Prop where
  operands_eq : operandsOf own = operands
  denotes : denotes own tree
  parses : ∃ s, text = some s ∧ parses s tree

theorem ReadsBack.mono {α : Type} {denotes : List Token → α → Prop} {parses : Text → α → Prop}
    {ts us operands : List Token} {text : Option Text}
    (h : ReadsBack denotes parses ts operands text) (hts : ts <:+: us) :
    ReadsBack denotes parses us operands text := by
  obtain ⟨own, s, tree, hown, hrest⟩ := h
  exact ⟨own, s, tree, hown.trans hts, hrest⟩

/-- Where trees are unique the tree that is denoted is read back. -/
theorem Renders.readsBack {α : Type} {denotes : List Token → α → Prop}
    {parses : Text → α → Prop} {own operands : List Token} {text : Option Text} {tree : α}
    (h : Renders denotes parses own operands text tree)
    (hdenotes : ∀ a b, denotes own a → denotes own b → a = b)
    (hparses : ∀ s a b, parses s a → parses s b → a = b) :
    ReadsBack denotes parses own operands text := by
  obtain ⟨s, htext, hs⟩ := h.parses
  refine ⟨own, s, tree, List.infix_rfl, h.operands_eq, htext, fun other => ⟨fun hother => ?_, ?_⟩,
    fun other => ⟨fun hother => ?_, ?_⟩⟩
  · exact hdenotes _ _ hother h.denotes
  · rintro rfl
    exact h.denotes
  · exact hparses _ _ _ hother hs
  · rintro rfl
    exact hs

theorem operandsOf_cons_pos {t : Token} (h : t.kind.startsOperand = true) (ts : List Token) :
    operandsOf (t :: ts) = t :: operandsOf ts := List.filter_cons_of_pos h

theorem operandsOf_cons_neg {t : Token} (h : t.kind.startsOperand = false) (ts : List Token) :
    operandsOf (t :: ts) = operandsOf ts := List.filter_cons_of_neg (by rw [h]; decide)

/-- An operator, a comma or a parenthesis is passed over. -/
theorem operandsOf_separated {t : Token} (h : t.kind.startsOperand = false) (ts us : List Token) :
    operandsOf (ts ++ t :: us) = operandsOf ts ++ operandsOf us := by
  rw [operandsOf, List.filter_append]
  exact congrArg _ (operandsOf_cons_neg h us)

end Target

/-- Every one of some expressions is read back from the tokens. -/
def Lexicon.AllReadBack (lx : Lexicon) (content : Text) (ts : List Token) (es : List Expr) :
    Prop :=
  ∀ e ∈ es, ReadsBack (DenotesFormula content) ParsesFormula ts e.tokens (lx.expr e).text

theorem Lexicon.AllReadBack.mono {lx : Lexicon} {content : Text} {ts us : List Token}
    {es : List Expr} (h : lx.AllReadBack content ts es) (hts : ts <:+: us) :
    lx.AllReadBack content us es := fun e he => (h e he).mono hts

/-- Expressions on both sides of a token. -/
theorem Lexicon.AllReadBack.separated {lx : Lexicon} {content : Text} {ts us : List Token}
    {es fs : List Expr} (h : lx.AllReadBack content ts es) (t : Token)
    (h' : lx.AllReadBack content us fs) : lx.AllReadBack content (ts ++ t :: us) (es ++ fs) := by
  have hright : us <:+ ts ++ t :: us := (List.suffix_cons t us).trans (List.suffix_append _ _)
  exact List.forall_mem_append.2 ⟨h.mono (List.prefix_append _ _).isInfix, h'.mono hright.isInfix⟩

theorem mem_operators {kind : Kind} (h : kind.isArithmetic = true) :
    (kind, kind.operatorText) ∈ operators := by
  revert h
  cases kind <;> decide

theorem mem_comparisons {kind : Kind} (h : kind.isComparison = true) :
    (kind, kind.operatorText) ∈ comparisons := by
  revert h
  cases kind <;> decide

/-- No operator starts an operand. -/
theorem startsOperand_of_mem_table {kind : Kind}
    (h : kind ∈ (operators ++ comparisons).map (·.1)) : kind.startsOperand = false := by
  have hall : ∀ kind ∈ (operators ++ comparisons).map (·.1), kind.startsOperand = false := by
    decide
  exact hall kind h

/-- Texts with a separator between them, if there is something behind the first. -/
theorem Text.join_cons_of_ne_nil {sep a : Text} {r : List Text} (h : join sep r ≠ []) :
    join sep (a :: r) = a ++ (sep ++ join sep r) := by
  cases r with
  | nil => exact absurd rfl h
  | cons b r => rw [join, List.intercalate_cons_cons, List.append_assoc, join]

/-! ## What is read is what is written -/

section

variable {lx : Lexicon} {content : Text}

/-- An operand is an expression. -/
theorem Target.Renders.single {own : List Token} {o : Operand} {a : Term}
    (h : Renders (DenotesTerm content) ParsesTerm own o.tokens (lx.operand o).text a) :
    Renders (DenotesFormula content) ParsesFormula own (Expr.single o).tokens
      (lx.expr (.single o)).text (.single a) := by
  obtain ⟨s, hs, hparses⟩ := h.parses
  exact ⟨h.operands_eq, .single h.denotes, s, hs, .single hparses⟩

/-- The expression that was read is read back, and with it those inside it. -/
theorem Target.Renders.allReadBack {own : List Token} {e : Expr} {f : Formula} {es : List Expr}
    (h : Renders (DenotesFormula content) ParsesFormula own e.tokens (lx.expr e).text f)
    (hes : lx.AllReadBack content own es) : lx.AllReadBack content own (e :: es) :=
  List.forall_mem_cons.2
    ⟨h.readsBack (fun _ _ ha hb => ha.eq hb) fun _ _ _ ha hb => ha.eq hb, hes⟩

mutual
/-- **The tokens of an operand denote the tree of its text**, unless an error is reported. -/
theorem ReadsOperand.renders (hlx : lx.InLatin content) {ts rest : List Token} {o : Operand} :
    ReadsOperand false ts o rest → (∀ t ∈ ts, t.HasSpelling content) →
      NoErrors (lx.operand o).reports →
      ∃ own a, ts = own ++ rest ∧
        Renders (DenotesTerm content) ParsesTerm own o.tokens (lx.operand o).text a ∧
        lx.AllReadBack content own o.nested
  | .nothing, _, hnone => absurd hnone (not_noErrors_error _ _ _ _)
  | .missing _, _, hnone => absurd hnone (not_noErrors_error _ _ _ _)
  | @ReadsOperand.name _ t r kind _, _, hnone => by
    have hleaf : Leaf.ofToken? content t = some (.name (Latin.rename (t.text content))) := by
      rw [Leaf.ofToken?, kind]
    refine ⟨[t], _, rfl, ⟨operandsOf_cons_pos (by rw [kind]; rfl) [], .leaf hleaf, _, rfl, ?_⟩,
      List.forall_mem_nil _⟩
    have hname : ParsesTerm (lx.resolve t).1 (.leaf (.name (Latin.rename (t.text content)))) := by
      rw [hlx.resolve_eq hnone]
      exact .leaf (.name (Latin.name_rename _))
    exact hname
  | @ReadsOperand.literal _ t r kind starts, hts, _ => by
    obtain ⟨l, hleaf, hparses⟩ := hlx.parses_literal kind starts (hts t List.mem_cons_self)
    exact ⟨[t], _, rfl, ⟨operandsOf_cons_pos starts [], .leaf hleaf, _, rfl, .leaf hparses⟩,
      List.forall_mem_nil _⟩
  | @ReadsOperand.call _ t p r rest args kind paren inner, hts, hnone => by
    have hreports : NoErrors ((lx.resolve t).2 ++ (lx.arguments args).2) := by
      rw [Lexicon.operand] at hnone
      dsimp only at hnone
      split at hnone <;> exact hnone
    obtain ⟨hname, hargs⟩ := noErrors_append.1 hreports
    obtain ⟨own, c, as, rfl, hc, hclosed, hrenders, hnested⟩ := inner.renders hlx
      (fun u hu => hts u (List.mem_cons_of_mem _ (List.mem_cons_of_mem _ hu))) hargs
    obtain ⟨s, hs, hparses⟩ := hrenders.parses
    refine ⟨t :: p :: (own ++ [c]), .call (Latin.rename (t.text content)) as, by simp,
      ⟨?_, .call kind paren hrenders.denotes hc, _, ?_, .call (Latin.name_rename _) hparses⟩, ?_⟩
    · rw [operandsOf_cons_pos (by rw [kind]; rfl), operandsOf_cons_neg (by rw [paren]; rfl),
        operandsOf_separated (by rw [hc]; rfl), hrenders.operands_eq, Operand.tokens]
      exact congrArg _ (List.append_nil _)
    · rw [Lexicon.operand, hclosed, ← hlx.resolve_eq hname, ← Option.some.inj hs]
      simp only [List.append_assoc]
    · rw [Operand.nested]
      exact hnested.mono ⟨[t, p], [c], by simp⟩

/-- The tokens in front of the closing parenthesis denote the arguments. -/
theorem ReadsArguments.renders (hlx : lx.InLatin content) {ts rest : List Token}
    {args : Arguments} :
    ReadsArguments false ts args rest → (∀ t ∈ ts, t.HasSpelling content) →
      NoErrors (lx.arguments args).2 →
      ∃ own c as, ts = own ++ c :: rest ∧ c.kind = .rparen ∧ args.closing = .closed ∧
        Renders (DenotesFormulas content) ParsesFormulas own args.tokens
          (some (Text.join "," (lx.arguments args).1)) as ∧
        lx.AllReadBack content own args.nested
  | @ReadsArguments.none _ c r close, _, _ =>
    ⟨[], c, .nil, rfl, close, rfl, ⟨rfl, .none, _, rfl, .none⟩, List.forall_mem_nil _⟩
  | .some _ inner, hts, hnone => by
    obtain ⟨own, c, f, fs, hrest⟩ := inner.renders hlx hts hnone
    exact ⟨own, c, .cons f fs, hrest⟩

theorem ReadsArgument.renders (hlx : lx.InLatin content) {ts rest : List Token}
    {args : Arguments} :
    ReadsArgument false ts args rest → (∀ t ∈ ts, t.HasSpelling content) →
      NoErrors (lx.arguments args).2 →
      ∃ own c f fs, ts = own ++ c :: rest ∧ c.kind = .rparen ∧ args.closing = .closed ∧
        Renders (DenotesFormulas content) ParsesFormulas own args.tokens
          (some (Text.join "," (lx.arguments args).1)) (.cons f fs) ∧
        lx.AllReadBack content own args.nested
  | .atEnd _, _, hnone =>
    absurd (noErrors_append.1 hnone).2 (Lexicon.not_noErrors_misplaced _ _ _)
  | .other _ _ _, _, hnone =>
    absurd (noErrors_append.1 hnone).2 (Lexicon.not_noErrors_misplaced _ _ _)
  | @ReadsArgument.last _ ts r e c first close, hts, hnone => by
    obtain ⟨own, f, hown, hrenders, hnested⟩ := first.renders hlx hts (noErrors_append.1 hnone).1
    obtain ⟨s, hs, hparses⟩ := hrenders.parses
    refine ⟨own, c, f, .nil, hown, close, rfl, ⟨?_, .one hrenders.denotes, s, ?_, .one hparses⟩, ?_⟩
    · rw [hrenders.operands_eq, Arguments.tokens, Arguments.tokens, Closing.tokens,
        List.append_nil]
    · rw [Lexicon.arguments, hs]
      exact congrArg some (List.append_nil s)
    · rw [Arguments.nested, Arguments.nested, List.append_nil]
      exact hnested
  | @ReadsArgument.next _ ts r rest e c args first comma more, hts, hnone => by
    obtain ⟨hfirst, hmore⟩ := noErrors_append.1 hnone
    obtain ⟨own, f, hown, hrenders, hnested⟩ := first.renders hlx hts hfirst
    obtain ⟨own', c', g, fs, rfl, hc', hclosed, hrenders', hnested'⟩ := more.renders hlx
      (fun u hu => hts u (first.suffix.subset (List.mem_cons_of_mem _ hu))) hmore
    obtain ⟨s, hs, hparses⟩ := hrenders.parses
    obtain ⟨s', hs', hparses'⟩ := hrenders'.parses
    obtain rfl := Option.some.inj hs'
    refine ⟨own ++ c :: own', c', f, .cons g fs, by rw [hown]; simp, hc', hclosed,
      ⟨?_, .more hrenders.denotes comma hrenders'.denotes, _, ?_, .more hparses hparses'⟩, ?_⟩
    · rw [operandsOf_separated (by rw [comma]; rfl), hrenders.operands_eq,
        hrenders'.operands_eq, Arguments.tokens]
    · have hsolid : Text.join "," (lx.arguments args).1 ≠ [] := by
        obtain ⟨b, t, ht, -⟩ := hparses'.starts
        rw [ht]
        exact List.cons_ne_nil b t
      rw [Lexicon.arguments, hs, ← Text.join_cons_of_ne_nil hsolid]
      rfl
    · rw [Arguments.nested]
      exact hnested.separated c hnested'

theorem ReadsExpr.renders (hlx : lx.InLatin content) {ts rest : List Token} {e : Expr} :
    ReadsExpr false ts e rest → (∀ t ∈ ts, t.HasSpelling content) →
      NoErrors (lx.expr e).reports →
      ∃ own f, ts = own ++ rest ∧
        Renders (DenotesFormula content) ParsesFormula own e.tokens (lx.expr e).text f ∧
        lx.AllReadBack content own e.nested
  | .single left _, hts, hnone => by
    obtain ⟨own, a, hown, hrenders, hnested⟩ := left.renders hlx hts hnone
    exact ⟨own, _, hown, hrenders.single, hrenders.single.allReadBack hnested⟩
  | @ReadsExpr.binary _ ts r rest l right op left _ kind second, hts, hnone => by
    have hreports : NoErrors ((lx.operand l).reports ++ (lx.operand right).reports) := by
      rw [Lexicon.expr] at hnone
      split at hnone <;> exact hnone
    obtain ⟨hleft, hright⟩ := noErrors_append.1 hreports
    obtain ⟨own, a, hown, hrenders, hnested⟩ := left.renders hlx hts hleft
    obtain ⟨own', b, rfl, hrenders', hnested'⟩ := second.renders hlx
      (fun u hu => hts u (left.suffix.subset (List.mem_cons_of_mem _ hu))) hright
    obtain ⟨s, hs, hparses⟩ := hrenders.parses
    obtain ⟨s', hs', hparses'⟩ := hrenders'.parses
    have hmem := mem_operators kind
    have hexpr : Renders (DenotesFormula content) ParsesFormula (own ++ op :: own')
        (Expr.binary l op.kind right).tokens (lx.expr (.binary l op.kind right)).text
        (.binary a op.kind b) := by
      refine ⟨?_, .binary hrenders.denotes (List.mem_map_of_mem hmem) hrenders'.denotes, _, ?_,
        .binary hparses hmem hparses'⟩
      · rw [operandsOf_separated
          (startsOperand_of_mem_table (List.mem_map_of_mem (List.mem_append_left _ hmem))),
          hrenders.operands_eq, hrenders'.operands_eq, Expr.tokens]
      · rw [Lexicon.expr, hs, hs']
        simp only [List.append_assoc]
    exact ⟨_, _, by rw [hown]; simp, hexpr, hexpr.allReadBack (hnested.separated op hnested')⟩
end

/-- **The tokens of a condition denote the tree of its text**, unless an error is reported. -/
theorem ReadsCondition.renders (hlx : lx.InLatin content) {ts rest : List Token} {c : Condition}
    (h : ReadsCondition false ts c rest) (hts : ∀ t ∈ ts, t.HasSpelling content)
    (hnone : NoErrors (lx.condition c).reports) :
    ∃ own g, ts = own ++ rest ∧
      Renders (DenotesTest content) ParsesTest own c.tokens (lx.condition c).text g ∧
      lx.AllReadBack content own c.nested := by
  cases h with
  | plain left _ =>
    obtain ⟨own, f, hown, hrenders, hnested⟩ := left.renders hlx hts hnone
    obtain ⟨s, hs, hparses⟩ := hrenders.parses
    exact ⟨own, _, hown, ⟨hrenders.operands_eq, .plain hrenders.denotes, s, hs, .plain hparses⟩,
      hnested⟩
  | @compare r _ l right op left _ kind second =>
    have hreports : NoErrors ((lx.expr l).reports ++ (lx.expr right).reports) := by
      rw [Lexicon.condition] at hnone
      split at hnone <;> exact hnone
    obtain ⟨hleft, hright⟩ := noErrors_append.1 hreports
    obtain ⟨own, f, hown, hrenders, hnested⟩ := left.renders hlx hts hleft
    obtain ⟨own', g, rfl, hrenders', hnested'⟩ := second.renders hlx
      (fun u hu => hts u (left.suffix.subset (List.mem_cons_of_mem _ hu))) hright
    obtain ⟨s, hs, hparses⟩ := hrenders.parses
    obtain ⟨s', hs', hparses'⟩ := hrenders'.parses
    have hmem := mem_comparisons kind
    refine ⟨own ++ op :: own', _, by rw [hown]; simp,
      ⟨?_, .compare hrenders.denotes (List.mem_map_of_mem hmem) hrenders'.denotes, _, ?_,
        .compare hparses hmem hparses'⟩, ?_⟩
    · rw [operandsOf_separated
        (startsOperand_of_mem_table (List.mem_map_of_mem (List.mem_append_right _ hmem))),
        hrenders.operands_eq, hrenders'.operands_eq, Condition.tokens]
    · rw [Lexicon.condition, hs, hs']
      simp only [List.append_assoc]
    · exact hnested.separated op hnested'

/-! ## Statements -/

omit lx content in
theorem infix_of_suffix_append {part own rest : List Token} (h : part ++ rest <:+ own ++ rest) :
    part <:+: own := by
  obtain ⟨before, hbefore⟩ := h
  rw [← List.append_assoc] at hbefore
  exact ⟨before, [], by rw [List.append_nil, List.append_cancel_right hbefore]⟩

/-- The expression at the end of some tokens is read back from them. -/
theorem ReadsExpr.allReadBack (hlx : lx.InLatin content) {ts own rest : List Token} {e : Expr}
    (h : ReadsExpr false ts e rest) (hts : ts <:+ own ++ rest)
    (hspelled : ∀ t ∈ own ++ rest, t.HasSpelling content)
    (hnone : NoErrors (lx.expr e).reports) : lx.AllReadBack content own e.nested := by
  obtain ⟨part, f, rfl, -, hnested⟩ :=
    h.renders hlx (fun t ht => hspelled t (hts.subset ht)) hnone
  exact hnested.mono (infix_of_suffix_append hts)

namespace Statement

/-- The expressions and the condition of a statement are read back from the tokens. -/
structure ReadBack (lx : Lexicon) (content : Text) (ts : List Token) (st : Statement) : Prop where
  exprs : lx.AllReadBack content ts st.exprs
  condition : ∀ c ∈ st.condition?,
    ReadsBack (DenotesTest content) ParsesTest ts c.tokens (lx.condition c).text

theorem ReadBack.of_exprs {ts : List Token} {st : Statement} (hcondition : st.condition? = none)
    (h : lx.AllReadBack content ts st.exprs) : st.ReadBack lx content ts :=
  ⟨h, by rw [hcondition]; simp⟩

theorem ReadBack.of_none {ts : List Token} {st : Statement} (hcondition : st.condition? = none)
    (hexprs : st.exprs = []) : st.ReadBack lx content ts :=
  .of_exprs hcondition (by rw [hexprs]; exact List.forall_mem_nil _)

/-- A statement with a condition at its end. -/
theorem ReadBack.of_condition (hlx : lx.InLatin content) {ts own rest : List Token}
    {st : Statement} {c : Condition} (hcondition : st.condition? = some c)
    (hexprs : st.exprs = c.nested) (h : ReadsCondition false ts c rest) (hts : ts <:+ own ++ rest)
    (hspelled : ∀ t ∈ own ++ rest, t.HasSpelling content)
    (hnone : NoErrors (lx.condition c).reports) : st.ReadBack lx content own := by
  obtain ⟨part, g, rfl, hrenders, hnested⟩ :=
    h.renders hlx (fun t ht => hspelled t (hts.subset ht)) hnone
  have hpart := infix_of_suffix_append hts
  refine ⟨?_, ?_⟩
  · rw [hexprs]
    exact hnested.mono hpart
  · rw [hcondition]
    rintro c ⟨⟩
    exact (hrenders.readsBack (fun _ _ ha hb => ha.eq hb rfl)
      fun _ _ _ ha hb => ha.eq hb rfl).mono hpart

end Statement

namespace Desk

variable {src : Source.Tokens} {style : Style} {desk : Desk}

theorem noErrors_of_declare {name : Token} {quoted : Bool} {value : Expr}
    (h : NoErrors (desk.declare src style name quoted value).reports) :
    NoErrors (Lexicon.expr ⟨src, desk.names⟩ value).reports := by
  rw [declare] at h
  dsimp only at h
  split at h
  · exact h
  · exact (noErrors_append.1 h).1

theorem readBack_readVariable (hlx : Lexicon.InLatin ⟨src, desk.names⟩ content) (t : Token)
    (ts : List Token) {own : List Token} (hown : own ++ (readVariable false ts).rest = t :: ts)
    (hspelled : ∀ u ∈ t :: ts, u.HasSpelling content)
    (hnone : NoErrors (desk.write src style (readVariable false ts).value).reports) :
    (readVariable false ts).value.ReadBack ⟨src, desk.names⟩ content own := by
  rw [← hown] at hspelled
  revert hown hspelled hnone
  rw [readVariable]
  split
  · exact fun _ _ _ => .of_none rfl rfl
  rename_i name r₁ le₁ heq₁
  obtain ⟨rfl, -⟩ := expect_ok heq₁
  split
  · exact fun _ _ _ => .of_none rfl rfl
  rename_i r₂ le₂ heq₂
  obtain ⟨rfl, -⟩ := expect_ok heq₂
  intro hown hspelled hnone
  refine .of_exprs rfl ((readsExpr false r₂).allReadBack hlx ?_ hspelled ?_)
  · rw [hown]
    exact ⟨[t, name, _], rfl⟩
  · exact noErrors_of_declare hnone

theorem readBack_readCallOrAssign (hlx : Lexicon.InLatin ⟨src, desk.names⟩ content) {t : Token}
    (hkind : t.kind = .ident) (ts : List Token) {own : List Token}
    (hown : own ++ (readCallOrAssign false t ts).rest = t :: ts)
    (hspelled : ∀ u ∈ t :: ts, u.HasSpelling content)
    (hnone : NoErrors (desk.write src style (readCallOrAssign false t ts).value).reports) :
    (readCallOrAssign false t ts).value.ReadBack ⟨src, desk.names⟩ content own := by
  cases ts with
  | nil => exact .of_none rfl rfl
  | cons u r =>
    revert hown hnone
    rw [readCallOrAssign]
    split
    · rename_i hparen
      intro hown hnone
      obtain ⟨part, a, hpart, hrenders, hnested⟩ :=
        (ReadsOperand.call hkind hparen (readsArguments false r)).renders hlx hspelled hnone
      obtain rfl : own = part := List.append_cancel_right (hown.trans hpart)
      exact .of_exprs rfl (hrenders.single.allReadBack hnested)
    · split
      · intro hown hnone
        replace hown : own ++ (readExpr false r).rest = t :: u :: r := hown
        refine .of_exprs rfl ((readsExpr false r).allReadBack hlx ?_ (hown ▸ hspelled)
          (noErrors_append.1 hnone).2)
        rw [hown]
        exact ⟨[t, u], rfl⟩
      · exact fun _ _ => .of_none rfl rfl

theorem readBack_readFunction (keyword : Token) (r ts : List Token) :
    (readFunction keyword r).value.ReadBack lx content ts := by
  rw [readFunction]
  split
  · exact .of_none rfl rfl
  split
  · exact .of_none rfl rfl
  split
  · exact .of_none rfl rfl
  split <;> exact .of_none rfl rfl

/-- **A statement that is written without an error is read back** from its own tokens. -/
theorem readBack_readStatement (hlx : Lexicon.InLatin ⟨src, desk.names⟩ content) (t : Token)
    (ts : List Token) {own : List Token} (hown : own ++ (readStatement false t ts).rest = t :: ts)
    (hspelled : ∀ u ∈ t :: ts, u.HasSpelling content)
    (hnone : NoErrors (desk.write src style (readStatement false t ts).value).reports) :
    (readStatement false t ts).value.ReadBack ⟨src, desk.names⟩ content own := by
  revert hown hnone
  rw [readStatement]
  split
  · exact fun hown hnone => readBack_readVariable hlx t ts hown hspelled hnone
  · rw [readPrint]
    split
    · intro hown hnone
      exact .of_exprs rfl ((readsExpr false ts).allReadBack hlx (hown ▸ List.suffix_cons t ts)
        (hown ▸ hspelled) hnone)
    · exact fun _ _ => .of_none rfl rfl
  · exact fun _ _ => readBack_readFunction t ts own
  · rename_i hkind
    exact fun hown hnone => readBack_readCallOrAssign hlx hkind ts hown hspelled hnone
  · exact fun _ _ => .of_none rfl rfl
  · exact fun _ _ => .of_none rfl rfl
  · intro hown hnone
    exact .of_condition hlx rfl rfl (readsCondition false ts) (hown ▸ List.suffix_cons t ts)
      (hown ▸ hspelled) hnone
  · intro hown hnone
    exact .of_condition hlx rfl rfl (readsCondition false ts) (hown ▸ List.suffix_cons t ts)
      (hown ▸ hspelled) hnone
  · exact fun _ _ => .of_none rfl rfl
  · split
    · intro hown hnone
      exact .of_exprs rfl ((readsExpr false ts).allReadBack hlx (hown ▸ List.suffix_cons t ts)
        (hown ▸ hspelled) hnone)
    · exact fun _ _ => .of_none rfl rfl
  · exact fun _ _ => .of_none rfl rfl
  · exact fun _ _ => .of_none rfl rfl
  · exact fun _ _ => .of_none rfl rfl

end Desk

/-! ## Sources -/

/-- Names that were bound with Latin spellings are looked up in these. -/
theorem Desk.inLatin_after {style : Style} (hlatin : style.rename = Latin.rename) (content : Text)
    (last : Token) (front : List Placed) :
    Lexicon.InLatin ⟨⟨some content, last⟩,
      (Desk.after ⟨some content, last⟩ style {} front).names⟩ content := by
  have hempty : ({} : Desk).names.Maps style.rename [] := Names.maps_empty style.rename
  have hmaps := Desk.maps_after ⟨some content, last⟩ style hempty front
  refine ⟨rfl, fun raw spelling hlookup => ?_⟩
  rw [hmaps raw, hlatin] at hlookup
  split at hlookup
  · exact (Option.some.inj hlookup).symm
  · cases hlookup

/-- Without an error in a script there is none in what is written for a statement. -/
theorem Desk.noErrors_write {src : Source.Tokens} {style : Style} {ps : List Placed}
    (h : NoErrors (Diagnostic.distinct ((Desk.writeAll src style {} ps).flatMap (·.reports))))
    {k : Nat} {p : Placed} (hp : ps[k]? = some p) :
    NoErrors ((Desk.after src style {} (ps.take k)).write src style p.statement).reports := by
  have hwritten := Desk.getElem?_writeAll src style {} ps k
  rw [hp, Option.map_some] at hwritten
  intro d hd
  exact Diagnostic.noErrors_of_distinct h d
    (List.mem_flatMap.2 ⟨_, List.mem_of_getElem? hwritten, hd⟩)

/-- Every statement is read back from its own tokens, with the names that are bound before it. -/
def TokenList.ReadBack (content : Text) (style : Style) (ts : TokenList) : Prop :=
  ∀ (k : Nat) (p : Placed), ts.statements[k]? = some p →
    p.statement.ReadBack
      ⟨⟨some content, ts.finish⟩,
        (Desk.after ⟨some content, ts.finish⟩ style {} (ts.statements.take k)).names⟩
      content p.tokens

/-- **Expressions are read back.**  In a source that is written in Latin spellings and without
an error, the text of every expression has one tree, and it is the tree that the tokens of the
expression denote; so has the text of every condition. -/
theorem expressions_read_back (file : FileId) {content : Text} (hsize : content.length < 2 ^ 32)
    {style : Style} (hlatin : style.rename = Latin.rename)
    (hnone : NoErrors
      (transpile file (some content) style (tokenize file content).tokens).reports) :
    (TokenList.ofList file (tokenize file content).tokens).ReadBack content style := by
  obtain ⟨body, last, htokens, hcut⟩ := TokenList.ofList_tokenize file content
  have hspelled : ∀ t ∈ body, t.HasSpelling content := fun t ht =>
    hasSpelling_of_mem_tokenize hsize t (htokens ▸ List.mem_append_left _ ht)
  rw [transpile, hcut] at hnone
  rw [hcut]
  intro k p hp
  dsimp only [TokenList.statements] at hp hnone ⊢
  have hwritten := Desk.noErrors_write hnone hp
  have hlx := Desk.inLatin_after hlatin content last ((readStatements false body).take k)
  obtain ⟨hk, hget⟩ := List.getElem?_eq_some_iff.1 hp
  have hsplit : readStatements false body =
      (readStatements false body).take k ++ p :: (readStatements false body).drop (k + 1) := by
    rw [← hget, List.cons_getElem_drop_succ, List.take_append_drop]
  obtain hfinish | ⟨t, r, hown, hstatement, hrest⟩ := Placed.read_of_split hsplit
  · rw [hfinish]
    exact .of_none rfl rfl
  · have hmem : ∀ u ∈ t :: r, u.HasSpelling content := by
      rw [← hown]
      refine List.forall_mem_append.2 ⟨fun u hu => ?_, fun u hu => ?_⟩
      · exact hspelled u (Placed.mem_of_mem_tokens (List.mem_of_getElem? hp) hu)
      · obtain ⟨q, hq, hu⟩ := List.mem_flatMap.1 hu
        exact hspelled u (Placed.mem_of_mem_tokens (List.mem_of_mem_drop hq) hu)
    rw [hstatement] at hwritten ⊢
    rw [hrest] at hown
    exact Desk.readBack_readStatement hlx t r hown hmem hwritten

end

/-- A call inside a call, with a comma and a parenthesis in its string, and a comparison. -/
def nestedCalls : Text := "شيء م = 1\nإذا م(م(\"),\") + ٣,٥) < 2\nانتهى"

section

set_option maxRecDepth 4096

/-- Nothing is reported, whatever the only name is spelled like. -/
theorem reports_nestedCalls (rename : Text → Text) :
    (transpile 0 (some nestedCalls) { rename } (tokenize 0 nestedCalls).tokens).reports = [] := by
  cbv

theorem length_exprs_nestedCalls :
    (TokenList.ofList 0 (tokenize 0 nestedCalls).tokens).statements[1]?.map
      (·.statement.exprs.length) = some 4 := by
  cbv

end

theorem expressions_read_back_nestedCalls :
    nestedCalls.length < 2 ^ 32 ∧
      (transpile 0 (some nestedCalls) { rename := Latin.rename }
        (tokenize 0 nestedCalls).tokens).reports = [] ∧
      (TokenList.ofList 0 (tokenize 0 nestedCalls).tokens).statements[1]?.map
        (·.statement.exprs.length) = some 4 ∧
      (TokenList.ofList 0 (tokenize 0 nestedCalls).tokens).ReadBack nestedCalls
        { rename := Latin.rename } := by
  have hsize : nestedCalls.length < 2 ^ 32 := by decide
  -- `rfl` alone would go on to unfold the renaming.
  have hlatin : ({ rename := Latin.rename } : Style).rename = Latin.rename := by dsimp only
  have hnone : NoErrors (transpile 0 (some nestedCalls) { rename := Latin.rename }
      (tokenize 0 nestedCalls).tokens).reports := by
    rw [reports_nestedCalls]
    exact noErrors_nil
  exact ⟨hsize, reports_nestedCalls _, length_exprs_nestedCalls,
    @expressions_read_back 0 nestedCalls hsize { rename := Latin.rename } hlatin hnone⟩

end Tarjuman
