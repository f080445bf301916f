/-
# Which part reports what

The code of a finding tells which part of the program made it.  While a content is read
only findings of the lexer are reported (`tokenize_origin`), and while a script is written
only findings of the transpiler (`transpile_origin`).  So what the driver adds to the
findings about a file, such as the report on timings, can be told from them.  The codes of
what is reported about a statement are listed (`Code.ofStatements`), and that a block is not
closed is not among them: it comes up at the end of the input alone (`Desk.write_listed`).
-/

import Tarjuman.Proofs.ReportPlaces

namespace Tarjuman

/-- The codes of what is reported about a statement. -/
def Code.ofStatements : List Code :=
  [invalidStatement, unexpectedToken, expectIdentifier, expectOperand, unmatchedEnd,
    elseWithoutIf, unboundIdentifier, redeclared, renameCollision, unsupported]

theorem Code.origin_of_mem_ofStatements : ∀ c ∈ ofStatements, c.origin = .transpiler := by
  decide

/-- All findings have a code that statements can have. -/
def AllListed (ds : List Diagnostic) : Prop := ∀ d ∈ ds, d.code ∈ Code.ofStatements

namespace AllListed

theorem nil : AllListed [] := List.forall_mem_nil _

theorem single {d : Diagnostic} (h : d.code ∈ Code.ofStatements) : AllListed [d] :=
  List.forall_mem_singleton.2 h

/-- A single finding counts by its code. -/
theorem error {code : Code} (h : code ∈ Code.ofStatements) (span : Span) (message : Text) :
    AllListed [.error code span message] := single h

theorem warning {code : Code} (h : code ∈ Code.ofStatements) (span : Span) (message : Text) :
    AllListed [.warning code span message] := single h

theorem append {ds es : List Diagnostic} (h : AllListed ds) (h' : AllListed es) :
    AllListed (ds ++ es) :=
  List.forall_mem_append.2 ⟨h, h'⟩

end AllListed

open AllListed

theorem Source.Tokens.misplaced_listed (src : Source.Tokens) (m : Misplaced) :
    (src.misplaced m).code ∈ Code.ofStatements := by
  rw [misplaced]
  split
  · exact show Code.expectIdentifier ∈ Code.ofStatements by decide
  · exact show Code.unexpectedToken ∈ Code.ofStatements by decide

namespace Lexicon

variable (lx : Lexicon)

theorem resolve_listed (t : Token) : AllListed (lx.resolve t).2 := by
  rw [resolve]
  split
  · exact nil
  · exact error (by decide) _ _

mutual
theorem operand_listed : ∀ o : Operand, AllListed (lx.operand o).reports
  | .name t => by
    rw [operand]
    exact lx.resolve_listed t
  | .literal t => by
    rw [operand]
    exact nil
  | .call name args => by
    have hall := (lx.resolve_listed name).append (arguments_listed args)
    rw [operand]
    dsimp only
    split <;> exact hall
  | .missing found => by
    rw [operand]
    exact error (by decide) _ _

theorem expr_listed : ∀ e : Expr, AllListed (lx.expr e).reports
  | .single l => by
    rw [expr]
    exact operand_listed l
  | .binary l op r => by
    have hall := (operand_listed l).append (operand_listed r)
    rw [expr]
    split <;> exact hall

theorem arguments_listed : ∀ args : Arguments, AllListed (lx.arguments args).2
  | .done .closed => by
    rw [arguments] <;> simp [AllListed]
  | .done .endless => by
    rw [arguments] <;> simp [AllListed]
  | .done (.missing found) => by
    rw [arguments]
    exact single (lx.source.misplaced_listed _)
  | .more e rest => by
    rw [arguments]
    exact (expr_listed e).append (arguments_listed rest)
end

theorem condition_listed (c : Condition) : AllListed (lx.condition c).reports := by
  cases c with
  | plain e => exact lx.expr_listed e
  | compare l op r =>
    have hall := (lx.expr_listed l).append (lx.expr_listed r)
    rw [condition]
    split <;> exact hall

end Lexicon

namespace Desk

variable (src : Source.Tokens) (style : Style) (desk : Desk)

theorem bind_listed (warn : Bool) (t : Token) :
    AllListed (desk.bind src style warn t).2.1 := by
  rw [bind]
  refine append ?_ ?_
  · split
    · exact warning (by decide) _ _
    · exact nil
  · split
    · exact warning (by decide) _ _
    · exact nil

theorem bindParams_listed (ts : List Token) :
    AllListed (desk.bindParams src style ts).2.1 := by
  induction ts generalizing desk with
  | nil => exact nil
  | cons t r ih =>
    rw [bindParams]
    exact (desk.bind_listed src style false t).append (ih _)

theorem declare_listed (name : Token) (quoted : Bool) (value : Expr) :
    AllListed (desk.declare src style name quoted value).reports := by
  have hvalue := Lexicon.expr_listed ⟨src, desk.names⟩ value
  rw [declare]
  split
  · exact hvalue
  · exact hvalue.append (desk.bind_listed src style true name)

theorem function_listed (keyword : Token) (name : Option Token) (params : List Token)
    (fault : Option Misplaced) :
    AllListed (desk.function src style keyword name params fault).reports := by
  have hfaults : AllListed (fault.toList.map src.misplaced) :=
    List.forall_mem_map.2 fun m _ => src.misplaced_listed m
  cases name with
  | none => exact hfaults
  | some name =>
    exact ((bind_listed src style _ true name).append (bindParams_listed src style _ params)).append
      hfaults

/-- What is reported about one statement, if it is not the end of the input. -/
theorem write_listed {st : Statement} (hst : st ≠ .finish) :
    AllListed (desk.write src style st).reports := by
  cases st with
  | declare name quoted value => exact desk.declare_listed src style name quoted value
  | print value => exact Lexicon.expr_listed _ value
  | function keyword name params fault =>
    exact desk.function_listed src style keyword name params fault
  | call callee => exact Lexicon.operand_listed _ callee
  | assign name value =>
    exact (Lexicon.resolve_listed _ name).append (Lexicon.expr_listed _ value)
  | raw t => exact nil
  | close keyword =>
    rw [write, close]
    split
    · exact nil
    split
    · exact error (by decide) _ _
    · exact nil
  | whileLoop keyword c => exact Lexicon.condition_listed _ c
  | ifBranch keyword c => exact Lexicon.condition_listed _ c
  | elseBranch keyword =>
    rw [write, otherwise]
    split
    · exact nil
    split
    · exact error (by decide) _ _
    · exact nil
  | giveBack value =>
    cases value with
    | none => exact nil
    | some value => exact Lexicon.expr_listed _ value
  | forLoop keyword => exact nil
  | classHead keyword => exact warning (by decide) _ _
  | broken fault => exact single (src.misplaced_listed fault)
  | stray t => exact error (by decide) _ _
  | finish => exact absurd rfl hst

theorem write_origin (st : Statement) :
    ∀ d ∈ (desk.write src style st).reports, d.origin = .transpiler := by
  by_cases hst : st = .finish
  · subst hst
    rw [write, finish]
    dsimp only
    split
    · exact List.forall_mem_map.2 fun b _ =>
        show Code.unclosedBlock.origin = .transpiler by decide
    · exact List.forall_mem_nil _
  · exact fun d hd => Code.origin_of_mem_ofStatements _ (desk.write_listed src style hst d hd)

theorem writeAll_origin (ps : List Placed) :
    ∀ w ∈ desk.writeAll src style ps, ∀ d ∈ w.reports, d.origin = .transpiler := by
  induction ps generalizing desk with
  | nil => exact List.forall_mem_nil _
  | cons p r ih =>
    exact List.forall_mem_cons.2 ⟨desk.write_origin src style p.statement, ih _⟩

end Desk

/-- **Writing a script reports findings of the transpiler.** -/
theorem transpile_origin (file : FileId) (content : Option Text) (style : Style)
    (ts : List Token) :
    ∀ d ∈ (transpile file content style ts).reports, d.origin = .transpiler := by
  intro d hd
  obtain ⟨w, hw, hd⟩ := List.mem_flatMap.1 (Diagnostic.mem_of_mem_distinctFrom hd)
  exact Desk.writeAll_origin _ style {} _ w hw d hd

theorem Cursor.fetchHere_origin (c : Cursor) : ∀ d ∈ c.fetchHere.report, d.origin = .lexer := by
  rw [fetchHere]
  split
  · simp
  · split
    · intro d hd
      simp only [take, Option.mem_def, Option.ite_none_right_eq_some, Option.some.injEq] at hd
      obtain ⟨-, rfl⟩ := hd
      exact show Code.unknownCharacter.origin = .lexer by decide
    · simp
    · rintro d ⟨⟩
      exact show Code.openString.origin = .lexer by decide
    · rintro d ⟨⟩
      exact show Code.openRawLiteral.origin = .lexer by decide

theorem Cursor.fetchAll_origin (c : Cursor) :
    ∀ f ∈ c.fetchAll, ∀ d ∈ f.report, d.origin = .lexer := by
  fun_induction fetchAll c with
  | case1 c _ => exact List.forall_mem_singleton.2 c.skipTrivia.fetchHere_origin
  | case2 c _ ih => exact List.forall_mem_cons.2 ⟨c.skipTrivia.fetchHere_origin, ih⟩

/-- **Reading a content reports findings of the lexer.** -/
theorem tokenize_origin (file : FileId) (content : Text) :
    ∀ d ∈ (tokenize file content).reports, d.origin = .lexer := by
  intro d hd
  obtain ⟨f, hf, hd⟩ := List.mem_filterMap.1 hd
  exact (Cursor.start file content).fetchAll_origin f hf d hd

end Tarjuman
