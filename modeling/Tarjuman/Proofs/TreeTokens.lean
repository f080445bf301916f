/-
# The tokens of a tree

Every tree names the tokens it was read from, and those that stood where another was
expected.  They come from the tokens at hand, in their order: an expression takes its
tokens in front of those it leaves (`ReadsExpr.sublist`), and a statement has no token
from anywhere else but, at most, the first that it leaves (`sublist_tokens_readStatement`).
Where the end of the input stood in the place of a token nothing is left
(`rest_readStatement_of_meetsEnd`).
-/

import Tarjuman.Proofs.Reading

namespace Tarjuman

namespace Closing

/-- The token in the place of the closing parenthesis. -/
def tokens : Closing → List Token
  | missing found => found.toList
  | closed | endless => []

/-- The end of the input stands in the place of the closing parenthesis. -/
def meetsEnd : Closing → Bool
  | missing found => found.isNone
  | closed | endless => false

end Closing

mutual
/-- The tokens of an operand in their order. -/
def Operand.tokens : Operand → List Token
  | .name t | .literal t => [t]
  | .call name args => name :: args.tokens
  | .missing found => found.toList
/-- The tokens of an expression in their order, the operator left out. -/
def Expr.tokens : Expr → List Token
  | .single l => l.tokens
  | .binary l _ r => l.tokens ++ r.tokens
/-- The tokens of arguments in their order, commas and parentheses left out. -/
def Arguments.tokens : Arguments → List Token
  | .done closing => closing.tokens
  | .more e rest => e.tokens ++ rest.tokens
end

/-- The tokens of a condition in their order, the comparison left out. -/
def Condition.tokens : Condition → List Token
  | .plain e => e.tokens
  | .compare l _ r => l.tokens ++ r.tokens

/-- The tokens of a statement that reports may point at. -/
def Statement.tokens : Statement → List Token
  | .declare name _ value => name :: value.tokens
  | .print value => value.tokens
  | .function keyword name params fault =>
    keyword :: (name.toList ++ params ++ (fault.bind (·.found)).toList)
  | .call callee => callee.tokens
  | .assign name value => name :: value.tokens
  | .whileLoop keyword c | .ifBranch keyword c => keyword :: c.tokens
  | .giveBack none | .finish => []
  | .giveBack (some value) => value.tokens
  | .raw t | .close t | .elseBranch t | .forLoop t | .classHead t | .stray t => [t]
  | .broken fault => fault.found.toList

mutual
/-- The end of the input stands in the place of a token of the operand. -/
def Operand.meetsEnd : Operand → Bool
  | .name _ | .literal _ => false
  | .call _ args => args.meetsEnd
  | .missing found => found.isNone
/-- The end of the input stands in the place of a token of the expression. -/
def Expr.meetsEnd : Expr → Bool
  | .single l => l.meetsEnd
  | .binary l _ r => l.meetsEnd || r.meetsEnd
/-- The end of the input stands in the place of a token of the arguments. -/
def Arguments.meetsEnd : Arguments → Bool
  | .done closing => closing.meetsEnd
  | .more e rest => e.meetsEnd || rest.meetsEnd
end

/-- The end of the input stands in the place of a token of the condition. -/
def Condition.meetsEnd : Condition → Bool
  | .plain e => e.meetsEnd
  | .compare l _ r => l.meetsEnd || r.meetsEnd

/-- The end of the input stands in the place of a token of the statement. -/
def Statement.meetsEnd : Statement → Bool
  | .declare _ _ value | .print value | .assign _ value | .giveBack (some value) => value.meetsEnd
  | .function _ _ _ fault => fault.any (·.found.isNone)
  | .call callee => callee.meetsEnd
  | .whileLoop _ c | .ifBranch _ c => c.meetsEnd
  | .broken fault => fault.found.isNone
  | .finish => true
  | .giveBack none | .raw _ | .close _ | .elseBranch _ | .forLoop _ | .classHead _ | .stray _ =>
    false

mutual
theorem ReadsOperand.sublist {trap : Bool} {ts rest : List Token} {o : Operand} :
    ReadsOperand trap ts o rest → (o.tokens ++ rest).Sublist ts
  | .nothing => List.Sublist.refl _
  | .name _ _ => List.Sublist.refl _
  | .call _ _ inner => by
    rw [Operand.tokens]
    exact (inner.sublist.cons _).cons_cons _
  | .literal _ _ => List.Sublist.refl _
  | .missing _ => List.Sublist.refl _

theorem ReadsArguments.sublist {trap : Bool} {ts rest : List Token} {args : Arguments} :
    ReadsArguments trap ts args rest → (args.tokens ++ rest).Sublist ts
  | .none _ => List.sublist_cons_self _ _
  | .some _ inner => inner.sublist

theorem ReadsArgument.sublist {trap : Bool} {ts rest : List Token} {args : Arguments} :
    ReadsArgument trap ts args rest → (args.tokens ++ rest).Sublist ts
  | .atEnd (e := e) first => by
    have hnone :
        (if trap && e.failedAtEnd then Closing.endless else .missing none).tokens = [] := by
      split <;> rfl
    have := first.sublist
    simpa only [Arguments.tokens, hnone, List.append_nil] using this
  | .next first _ more => by
    rw [Arguments.tokens, List.append_assoc]
    exact ((more.sublist.cons _).append_left _).trans first.sublist
  | .last first _ => by
    rw [Arguments.tokens, Arguments.tokens, Closing.tokens, List.append_nil]
    exact ((List.sublist_cons_self _ _).append_left _).trans first.sublist
  | .other first _ _ => by
    rw [Arguments.tokens, Arguments.tokens, Closing.tokens, List.append_assoc]
    exact first.sublist

theorem ReadsExpr.sublist {trap : Bool} {ts rest : List Token} {e : Expr} :
    ReadsExpr trap ts e rest → (e.tokens ++ rest).Sublist ts
  | .single left _ => by
    rw [Expr.tokens]
    exact left.sublist
  | .binary left _ _ second => by
    rw [Expr.tokens, List.append_assoc]
    exact ((second.sublist.cons _).append_left _).trans left.sublist
end

theorem ReadsCondition.sublist {trap : Bool} {ts rest : List Token} {c : Condition} :
    ReadsCondition trap ts c rest → (c.tokens ++ rest).Sublist ts
  | .plain left _ => left.sublist
  | .compare left _ _ second => by
    rw [Condition.tokens, List.append_assoc]
    exact ((second.sublist.cons _).append_left _).trans left.sublist

/-- Parameters and what stood in the place of one come before the tokens that are left. -/
theorem sublist_readMoreParams (ts : List Token) :
    ((readMoreParams ts).value.1 ++ (((readMoreParams ts).value.2.bind (·.found)).toList ++
      (readMoreParams ts).rest)).Sublist ts := by
  fun_induction readMoreParams ts with
  | case1 => exact List.Sublist.refl _
  | case2 c r _ fault rest le heq =>
    obtain rfl := expect_error heq
    exact List.sublist_cons_self _ _
  | case3 c r _ p rest le heq more =>
    rename_i ih
    obtain ⟨rfl, -⟩ := expect_ok heq
    exact (ih.cons_cons p).cons c
  | case4 => exact List.Sublist.refl _

theorem sublist_readParams (ts : List Token) :
    ((readParams ts).value.1 ++ (((readParams ts).value.2.bind (·.found)).toList ++
      (readParams ts).rest)).Sublist ts := by
  cases ts with
  | nil => exact List.Sublist.refl _
  | cons p r =>
    rw [readParams]
    split
    · exact (sublist_readMoreParams r).cons_cons p
    · exact List.Sublist.refl _

theorem sublist_readFunction (keyword : Token) (ts : List Token) :
    ((readFunction keyword ts).value.tokens ++ (readFunction keyword ts).rest).Sublist
      (keyword :: ts) := by
  rw [readFunction]
  split
  · rename_i fault rest le heq
    obtain rfl := expect_error heq
    simp [Statement.tokens]
  · rename_i name r₁ le₁ heq₁
    obtain ⟨rfl, -⟩ := expect_ok heq₁
    split
    · rename_i fault rest le heq
      obtain rfl := expect_error heq
      simp [Statement.tokens]
    · rename_i paren r₂ le₂ heq₂
      obtain ⟨rfl, -⟩ := expect_ok heq₂
      have hparams := sublist_readParams r₂
      split
      · rename_i params fault rest le heq
        rw [heq] at hparams
        simpa [Statement.tokens] using hparams.cons paren
      · rename_i params r₃ le₃ heq₃
        rw [heq₃] at hparams
        split
        · rename_i fault rest le heq
          simp only [Option.bind_none, Option.toList_none, List.nil_append,
            ← expect_error heq] at hparams
          simpa [Statement.tokens] using hparams.cons paren
        · rename_i close rest le heq
          obtain ⟨rfl, -⟩ := expect_ok heq
          simp only [Option.bind_none, Option.toList_none, List.nil_append] at hparams
          have hclose := ((List.sublist_cons_self close rest).append_left params).trans hparams
          simpa [Statement.tokens] using hclose.cons paren

theorem sublist_readVariable (trap : Bool) (ts : List Token) :
    ((readVariable trap ts).value.tokens ++ (readVariable trap ts).rest).Sublist ts := by
  rw [readVariable]
  split
  · rename_i fault rest le heq
    obtain rfl := expect_error heq
    exact List.Sublist.refl _
  · rename_i name r₁ le₁ heq₁
    obtain ⟨rfl, -⟩ := expect_ok heq₁
    split
    · rename_i fault rest le heq
      obtain rfl := expect_error heq
      exact (List.Sublist.refl _).cons name
    · rename_i r₂ le₂ heq₂
      obtain ⟨rfl, -⟩ := expect_ok heq₂
      exact ((readsExpr trap r₂).sublist.cons _).cons_cons name

theorem sublist_readPrint (trap : Bool) (ts : List Token) :
    ((readPrint trap ts).value.tokens ++ (readPrint trap ts).rest).Sublist ts := by
  rw [readPrint]
  split
  · exact (readsExpr trap ts).sublist
  · cases ts <;> exact List.Sublist.refl _

/-- A call or an assignment has tokens in front of those it leaves, or it breaks off at the
first of these. -/
theorem sublist_readCallOrAssign (trap : Bool) (name : Token) (ts : List Token) :
    ((readCallOrAssign trap name ts).value.tokens ++
        (readCallOrAssign trap name ts).rest).Sublist (name :: ts) ∨
      (readCallOrAssign trap name ts).value.tokens =
        (readCallOrAssign trap name ts).rest.head?.toList := by
  cases ts with
  | nil => exact .inr rfl
  | cons t r =>
    rw [readCallOrAssign]
    split
    · exact .inl (((readsArguments trap r).sublist.cons t).cons_cons name)
    · split
      · exact .inl (((readsExpr trap r).sublist.cons t).cons_cons name)
      · exact .inr rfl

/-- **A statement has no token from anywhere else.**  Its tokens are among its own and the
first that it leaves, in their order. -/
theorem sublist_tokens_readStatement (trap : Bool) (t : Token) (ts : List Token)
    {own : List Token} (hown : own ++ (readStatement trap t ts).rest = t :: ts) :
    (readStatement trap t ts).value.tokens.Sublist
      (own ++ (readStatement trap t ts).rest.head?.toList) := by
  suffices h : ((readStatement trap t ts).value.tokens ++
        (readStatement trap t ts).rest).Sublist (t :: ts) ∨
      (readStatement trap t ts).value.tokens = (readStatement trap t ts).rest.head?.toList by
    rcases h with h | h
    · rw [← hown, List.append_sublist_append_right] at h
      exact h.trans (List.sublist_append_left _ _)
    · rw [h]
      exact List.sublist_append_right _ _
  have hcondition := (readsCondition trap ts).sublist.cons_cons t
  have hkeyword : ([t] ++ ts).Sublist (t :: ts) := List.Sublist.refl _
  rw [readStatement]
  split
  · exact .inl ((sublist_readVariable trap ts).cons t)
  · exact .inl ((sublist_readPrint trap ts).cons t)
  · exact .inl (sublist_readFunction t ts)
  · exact sublist_readCallOrAssign trap t ts
  · exact .inl hkeyword
  · exact .inl hkeyword
  · exact .inl hcondition
  · exact .inl hcondition
  · exact .inl hkeyword
  · split
    · exact .inl ((readsExpr trap ts).sublist.cons t)
    · exact .inl (List.sublist_cons_self t ts)
  · exact .inl hkeyword
  · exact .inl hkeyword
  · exact .inl hkeyword

theorem sublist_tokens_readStatements (trap : Bool) (ts : List Token) :
    ∀ p ∈ readStatements trap ts, p.statement.tokens.Sublist ts := by
  fun_induction readStatements trap ts with
  | case1 => exact List.forall_mem_singleton.2 (List.Sublist.refl _)
  | case2 t r s ih =>
    have hown := own_readStatement trap t r
    have hnext : s.rest.head?.toList.Sublist s.rest := by
      cases s.rest with
      | nil => exact List.Sublist.refl _
      | cons u rest => exact (List.nil_sublist rest).cons_cons u
    have hfirst := (sublist_tokens_readStatement trap t r hown).trans (hnext.append_left _)
    rw [hown] at hfirst
    refine List.forall_mem_cons.2 ⟨hfirst, fun p hp => ?_⟩
    exact (ih p hp).trans ((suffix_readStatement trap t r).sublist.cons t)

/-! ## The end of the input -/

mutual
theorem ReadsOperand.rest_of_meetsEnd {trap : Bool} {ts rest : List Token} {o : Operand} :
    ReadsOperand trap ts o rest → (o.meetsEnd = true → rest = [])
  | .nothing => fun _ => rfl
  | .name _ _ | .literal _ _ | .missing _ => fun h => by cases h
  | .call _ _ inner => fun h => inner.rest_of_meetsEnd h

theorem ReadsArguments.rest_of_meetsEnd {trap : Bool} {ts rest : List Token} {args : Arguments} :
    ReadsArguments trap ts args rest → (args.meetsEnd = true → rest = [])
  | .none _ => fun h => by cases h
  | .some _ inner => fun h => inner.rest_of_meetsEnd h

theorem ReadsArgument.rest_of_meetsEnd {trap : Bool} {ts rest : List Token} {args : Arguments} :
    ReadsArgument trap ts args rest → (args.meetsEnd = true → rest = [])
  | .atEnd _ => fun _ => rfl
  | .next first _ more => fun h => by
    rw [Arguments.meetsEnd, Bool.or_eq_true] at h
    rcases h with h | h
    · cases first.rest_of_meetsEnd h
    · exact more.rest_of_meetsEnd h
  | .last first _ | .other first _ _ => fun h => by
    rw [Arguments.meetsEnd, Bool.or_eq_true] at h
    rcases h with h | h
    · cases first.rest_of_meetsEnd h
    · cases h

theorem ReadsExpr.rest_of_meetsEnd {trap : Bool} {ts rest : List Token} {e : Expr} :
    ReadsExpr trap ts e rest → (e.meetsEnd = true → rest = [])
  | .single left _ => fun h => left.rest_of_meetsEnd h
  | .binary left _ _ second => fun h => by
    rw [Expr.meetsEnd, Bool.or_eq_true] at h
    rcases h with h | h
    · cases left.rest_of_meetsEnd h
    · exact second.rest_of_meetsEnd h
end

theorem ReadsCondition.rest_of_meetsEnd {trap : Bool} {ts rest : List Token} {c : Condition} :
    ReadsCondition trap ts c rest → c.meetsEnd = true → rest = []
  | .plain left _, h => left.rest_of_meetsEnd h
  | .compare left _ _ second, h => by
    rw [Condition.meetsEnd, Bool.or_eq_true] at h
    rcases h with h | h
    · cases left.rest_of_meetsEnd h
    · exact second.rest_of_meetsEnd h

theorem rest_of_expect_error {kind : Kind} {ts rest : List Token} {fault : Misplaced}
    {le : rest.length ≤ ts.length} (h : expect kind ts = ⟨.error fault, rest, le⟩)
    (hend : fault.found.isNone = true) : rest = [] := by
  have hfound := expect_error h
  rw [Option.isNone_iff_eq_none.1 hend, Option.toList_none, List.nil_append] at hfound
  subst hfound
  cases rest with
  | nil => rfl
  | cons t r =>
    have hrest : r = t :: r := congrArg Reading.rest h
    exact absurd (congrArg List.length hrest) (by simp)

theorem rest_readMoreParams_of_meetsEnd (ts : List Token)
    (h : (readMoreParams ts).value.2.any (·.found.isNone) = true) :
    (readMoreParams ts).rest = [] := by
  fun_induction readMoreParams ts with
  | case1 => rfl
  | case2 c r _ fault rest le heq => exact rest_of_expect_error heq h
  | case3 c r _ p rest le heq more =>
    rename_i ih
    exact ih h
  | case4 => cases h

theorem rest_readParams_of_meetsEnd (ts : List Token)
    (h : (readParams ts).value.2.any (·.found.isNone) = true) : (readParams ts).rest = [] := by
  cases ts with
  | nil => rfl
  | cons p r =>
    rw [readParams] at h ⊢
    split at h
    · rename_i hp
      rw [if_pos hp]
      exact rest_readMoreParams_of_meetsEnd r h
    · cases h

theorem rest_readFunction_of_meetsEnd (keyword : Token) (ts : List Token)
    (h : (readFunction keyword ts).value.meetsEnd = true) :
    (readFunction keyword ts).rest = [] := by
  rw [readFunction] at h ⊢
  split at h
  · rename_i heq
    exact rest_of_expect_error heq h
  · rename_i name r₁ le₁ heq₁
    split at h
    · rename_i heq
      exact rest_of_expect_error heq h
    · rename_i paren r₂ le₂ heq₂
      have hparams := rest_readParams_of_meetsEnd r₂
      split at h
      · rename_i params fault rest le heq
        rw [heq] at hparams
        exact hparams h
      · rename_i params r₃ le₃ heq₃
        split at h
        · rename_i heq
          exact rest_of_expect_error heq h
        · cases h

/-- **Where the end of the input stood in the place of a token, nothing is left.** -/
theorem rest_readStatement_of_meetsEnd (trap : Bool) (t : Token) (ts : List Token)
    (h : (readStatement trap t ts).value.meetsEnd = true) :
    (readStatement trap t ts).rest = [] := by
  rw [readStatement] at h ⊢
  split at h
  · rw [readVariable] at h ⊢
    split at h
    · rename_i heq
      exact rest_of_expect_error heq h
    · split at h
      · rename_i heq
        exact rest_of_expect_error heq h
      · exact (readsExpr trap _).rest_of_meetsEnd h
  · rw [readPrint] at h ⊢
    split at h
    · rename_i hstarts
      rw [if_pos hstarts]
      exact (readsExpr trap ts).rest_of_meetsEnd h
    · rename_i hstarts
      rw [if_neg hstarts]
      cases ts with
      | nil => rfl
      | cons u r => cases h
  · exact rest_readFunction_of_meetsEnd t ts h
  · cases ts with
    | nil => rfl
    | cons u r =>
      rw [readCallOrAssign] at h ⊢
      split at h
      · rename_i hu
        rw [if_pos hu]
        exact (readsArguments trap r).rest_of_meetsEnd h
      · rename_i hu
        rw [if_neg hu]
        split at h
        · rename_i hassign
          rw [if_pos hassign]
          exact (readsExpr trap r).rest_of_meetsEnd h
        · cases h
  · cases h
  · cases h
  · exact (readsCondition trap ts).rest_of_meetsEnd h
  · exact (readsCondition trap ts).rest_of_meetsEnd h
  · cases h
  · split at h
    · rename_i hstarts
      rw [if_pos hstarts]
      exact (readsExpr trap ts).rest_of_meetsEnd h
    · cases h
  · cases h
  · cases h
  · cases h

end Tarjuman
