/-
# What a run without errors says

Nothing is left out of a script in silence.  A text that was split into tokens is
read to its end (`isRead_readStatements`); an expression or a condition that is not
written is reported as an error (`Lexicon.condition_text_of_noErrors`); and gathering
findings, each once, loses no error (`Diagnostic.noErrors_of_distinct`).  So where no error is
reported, everything was read and written.
-/

import Tarjuman.Proofs.Reading
import Tarjuman.Script.Transpile

namespace Tarjuman

/-- None of the findings is an error. -/
def NoErrors (ds : List Diagnostic) : Prop := ∀ d ∈ ds, d.isError = false

instance (ds : List Diagnostic) : Decidable (NoErrors ds) :=
  inferInstanceAs (Decidable (∀ d ∈ ds, d.isError = false))

theorem noErrors_append {ds es : List Diagnostic} :
    NoErrors (ds ++ es) ↔ NoErrors ds ∧ NoErrors es := List.forall_mem_append

theorem not_noErrors_error (code : Code) (span : Span) (message : Text) (r : List Diagnostic) :
    ¬ NoErrors (.error code span message :: r) := fun h => nomatch h _ List.mem_cons_self

namespace Diagnostic

theorem isError_eq_of_same {a b : Diagnostic} (h : a.same b = true) : a.isError = b.isError := by
  simp only [same, decide_eq_true_eq] at h
  rw [isError, isError, h.2.1]

/-- A finding that is left out says the same as one that is kept. -/
theorem noErrors_of_distinctFrom {seen ds : List Diagnostic} (hseen : NoErrors seen)
    (h : NoErrors (distinctFrom seen ds)) : NoErrors ds := by
  induction ds generalizing seen with
  | nil => exact nofun
  | cons d r ih =>
    rw [distinctFrom] at h
    split at h
    · rename_i hany
      obtain ⟨e, he, hsame⟩ := List.any_eq_true.1 hany
      have hd : d.isError = false := (isError_eq_of_same hsame).trans (hseen e he)
      exact List.forall_mem_cons.2 ⟨hd, ih hseen h⟩
    · obtain ⟨hd, hr⟩ := List.forall_mem_cons.1 h
      exact List.forall_mem_cons.2 ⟨hd, ih (List.forall_mem_cons.2 ⟨hd, hseen⟩) hr⟩

/-- **No error is lost when each finding is kept once.** -/
theorem noErrors_of_distinct {ds : List Diagnostic} (h : NoErrors (distinct ds)) : NoErrors ds :=
  noErrors_of_distinctFrom (show NoErrors [] from nofun) h

end Diagnostic

/-! ## Reading ends -/

mutual
theorem ReadsOperand.not_endless {ts rest : List Token} {o : Operand} :
    ReadsOperand false ts o rest → o.isEndless = false
  | .nothing | .name _ _ | .literal _ _ | .missing _ => rfl
  | .call _ _ inner => inner.not_endless

theorem ReadsArguments.not_endless {ts rest : List Token} {args : Arguments} :
    ReadsArguments false ts args rest → args.isEndless = false
  | .none _ => rfl
  | .some _ inner => inner.not_endless

theorem ReadsArgument.not_endless {ts rest : List Token} {args : Arguments} :
    ReadsArgument false ts args rest → args.isEndless = false
  | .atEnd first => by rw [Arguments.isEndless, first.not_endless]; rfl
  | .next first _ more => by rw [Arguments.isEndless, first.not_endless, more.not_endless]; rfl
  | .last first _ => by rw [Arguments.isEndless, first.not_endless]; rfl
  | .other first _ _ => by rw [Arguments.isEndless, first.not_endless]; rfl

theorem ReadsExpr.not_endless {ts rest : List Token} {e : Expr} :
    ReadsExpr false ts e rest → e.isEndless = false
  | .single left _ => left.not_endless
  | .binary left _ _ second => by rw [Expr.isEndless, left.not_endless, second.not_endless]; rfl
end

theorem ReadsCondition.not_endless {ts rest : List Token} {c : Condition} :
    ReadsCondition false ts c rest → c.isEndless = false
  | .plain left _ => left.not_endless
  | .compare left _ _ second => by
    rw [Condition.isEndless, left.not_endless, second.not_endless]; rfl

/-- A statement that was read from tokens, to its end: the head of a function lacks a
name only if it is at fault. -/
def Statement.IsRead : Statement → Prop
  | .function _ name _ fault => name = none → fault.isSome = true
  | .finish => False
  | s => s.isEndless = false

theorem isRead_readFunction (keyword : Token) (ts : List Token) :
    (readFunction keyword ts).value.IsRead := by
  rw [readFunction]
  split
  · exact fun _ => rfl
  split
  · exact nofun
  split
  · exact nofun
  split <;> exact nofun

theorem isRead_readVariable (ts : List Token) : (readVariable false ts).value.IsRead := by
  rw [readVariable]
  split
  · rfl
  split
  · rfl
  · exact (readsExpr false _).not_endless

theorem isRead_readStatement (t : Token) (ts : List Token) :
    (readStatement false t ts).value.IsRead := by
  rw [readStatement]
  split
  · exact isRead_readVariable ts
  · rw [readPrint]
    split
    · exact (readsExpr false ts).not_endless
    · rfl
  · exact isRead_readFunction t ts
  · cases ts with
    | nil => rfl
    | cons p r =>
      rw [readCallOrAssign]
      split
      · exact (readsArguments false r).not_endless
      split
      · exact (readsExpr false r).not_endless
      · rfl
  · rfl
  · rfl
  · exact (readsCondition false ts).not_endless
  · exact (readsCondition false ts).not_endless
  · rfl
  · split
    · exact (readsExpr false ts).not_endless
    · rfl
  · rfl
  · rfl
  · rfl

/-- **Reading ends**, with the end of the input, unless a comma follows there. -/
theorem isRead_readStatements (ts : List Token) :
    ∃ body, (readStatements false ts).map (·.statement) = body ++ [.finish] ∧
      ∀ s ∈ body, s.IsRead := by
  fun_induction readStatements false ts with
  | case1 => exact ⟨[], rfl, List.forall_mem_nil _⟩
  | case2 t r s ih =>
    obtain ⟨body, hbody, hread⟩ := ih
    refine ⟨s.value :: body, congrArg _ hbody, ?_⟩
    exact List.forall_mem_cons.2 ⟨isRead_readStatement t r, hread⟩

/-! ## Writing is complete or reports an error -/

namespace Lexicon

variable (lx : Lexicon)

theorem not_noErrors_misplaced (src : Source.Tokens) (m : Misplaced) (r : List Diagnostic) :
    ¬ NoErrors (src.misplaced m :: r) := by
  rw [Source.Tokens.misplaced]
  split <;> exact not_noErrors_error _ _ _ _

/-- Arguments whose parenthesis is missing are reported. -/
theorem closing_of_noErrors : ∀ args : Arguments, args.isEndless = false →
    NoErrors (lx.arguments args).2 → args.closing = .closed
  | .done .closed, _, _ => rfl
  | .done (.missing _), _, h => absurd h (not_noErrors_misplaced _ _ _)
  | .more e rest, hend, h => by
    rw [Arguments.isEndless, Bool.or_eq_false_iff] at hend
    rw [arguments] at h
    exact closing_of_noErrors rest hend.2 (noErrors_append.1 h).2

theorem operand_text_of_noErrors {o : Operand} (hend : o.isEndless = false)
    (h : NoErrors (lx.operand o).reports) : ∃ text, (lx.operand o).text = some text := by
  cases o with
  | name t => exact ⟨_, rfl⟩
  | literal t => exact ⟨_, rfl⟩
  | call name args =>
    rw [operand] at h ⊢
    have hreports : NoErrors ((lx.resolve name).2 ++ (lx.arguments args).2) := by
      dsimp only at h
      split at h <;> exact h
    rw [closing_of_noErrors lx args hend (noErrors_append.1 hreports).2]
    exact ⟨_, rfl⟩
  | missing found => exact absurd h (not_noErrors_error _ _ _ _)

theorem expr_text_of_noErrors {e : Expr} (hend : e.isEndless = false)
    (h : NoErrors (lx.expr e).reports) : ∃ text, (lx.expr e).text = some text := by
  cases e with
  | single l => exact operand_text_of_noErrors lx hend h
  | binary l op r =>
    rw [Expr.isEndless, Bool.or_eq_false_iff] at hend
    rw [expr] at h ⊢
    have hreports : NoErrors ((lx.operand l).reports ++ (lx.operand r).reports) := by
      split at h <;> exact h
    obtain ⟨hl, hr⟩ := noErrors_append.1 hreports
    obtain ⟨a, ha⟩ := operand_text_of_noErrors lx hend.1 hl
    obtain ⟨b, hb⟩ := operand_text_of_noErrors lx hend.2 hr
    rw [ha, hb]
    exact ⟨_, rfl⟩

/-- **A condition is written unless an error is reported.** -/
theorem condition_text_of_noErrors {c : Condition} (hend : c.isEndless = false)
    (h : NoErrors (lx.condition c).reports) : ∃ text, (lx.condition c).text = some text := by
  cases c with
  | plain e => exact expr_text_of_noErrors lx hend h
  | compare l op r =>
    rw [Condition.isEndless, Bool.or_eq_false_iff] at hend
    rw [condition] at h ⊢
    have hreports : NoErrors ((lx.expr l).reports ++ (lx.expr r).reports) := by
      split at h <;> exact h
    obtain ⟨hl, hr⟩ := noErrors_append.1 hreports
    obtain ⟨a, ha⟩ := expr_text_of_noErrors lx hend.1 hl
    obtain ⟨b, hb⟩ := expr_text_of_noErrors lx hend.2 hr
    rw [ha, hb]
    exact ⟨_, rfl⟩

end Lexicon
end Tarjuman
