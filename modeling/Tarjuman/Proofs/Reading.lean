/-
# What is read, as rules

The readers of `Tarjuman.Script.Reader` are functions that call each other on fewer
and fewer tokens.  The rules here say the same as relations between the tokens at
hand, the tree that is read and the tokens that are left: one rule for each way a
reader can end.  `readsOperand` and its companions show that the functions follow the
rules, so that facts about what is read are proved rule by rule.
-/

import Tarjuman.Script.Reader

namespace Tarjuman

mutual
/-- The operand at the head of some tokens, and the tokens behind it. -/
inductive ReadsOperand (trap : Bool) : List Token → Operand → List Token → Prop where
  | nothing : ReadsOperand trap [] (.missing none) []
  | name {t : Token} {r : List Token} (kind : t.kind = .ident) (next : nextKind r ≠ .lparen) :
      ReadsOperand trap (t :: r) (.name t) r
  | call {t p : Token} {r rest : List Token} {args : Arguments} (kind : t.kind = .ident)
      (paren : p.kind = .lparen) (inner : ReadsArguments trap r args rest) :
      ReadsOperand trap (t :: p :: r) (.call t args) rest
  | literal {t : Token} {r : List Token} (kind : t.kind ≠ .ident)
      (starts : t.kind.startsOperand = true) : ReadsOperand trap (t :: r) (.literal t) r
  | missing {t : Token} {r : List Token} (starts : t.kind.startsOperand = false) :
      ReadsOperand trap (t :: r) (.missing (some t)) r

/-- The arguments behind an opening parenthesis. -/
inductive ReadsArguments (trap : Bool) : List Token → Arguments → List Token → Prop where
  | none {c : Token} {r : List Token} (close : c.kind = .rparen) :
      ReadsArguments trap (c :: r) (.done .closed) r
  | some {ts rest : List Token} {args : Arguments} (next : nextKind ts ≠ .rparen)
      (inner : ReadsArgument trap ts args rest) : ReadsArguments trap ts args rest

/-- At least one argument and what follows it. -/
inductive ReadsArgument (trap : Bool) : List Token → Arguments → List Token → Prop where
  | atEnd {ts : List Token} {e : Expr} (first : ReadsExpr trap ts e []) :
      ReadsArgument trap ts
        (.more e (.done (if trap && e.failedAtEnd then .endless else .missing none))) []
  | next {ts r rest : List Token} {e : Expr} {c : Token} {args : Arguments}
      (first : ReadsExpr trap ts e (c :: r)) (comma : c.kind = .comma)
      (more : ReadsArgument trap r args rest) : ReadsArgument trap ts (.more e args) rest
  | last {ts r : List Token} {e : Expr} {c : Token} (first : ReadsExpr trap ts e (c :: r))
      (close : c.kind = .rparen) : ReadsArgument trap ts (.more e (.done .closed)) r
  | other {ts r : List Token} {e : Expr} {c : Token} (first : ReadsExpr trap ts e (c :: r))
      (comma : c.kind ≠ .comma) (close : c.kind ≠ .rparen) :
      ReadsArgument trap ts (.more e (.done (.missing (some c)))) r

/-- One operand, or two with an operator between them. -/
inductive ReadsExpr (trap : Bool) : List Token → Expr → List Token → Prop where
  | single {ts rest : List Token} {l : Operand} (left : ReadsOperand trap ts l rest)
      (stop : l.isWhole = false ∨ (nextKind rest).isArithmetic = false) :
      ReadsExpr trap ts (.single l) rest
  | binary {ts r rest : List Token} {l right : Operand} {op : Token}
      (left : ReadsOperand trap ts l (op :: r)) (whole : l.isWhole = true)
      (kind : op.kind.isArithmetic = true) (second : ReadsOperand trap r right rest) :
      ReadsExpr trap ts (.binary l op.kind right) rest
end

/-- One expression, or two with a comparison between them. -/
inductive ReadsCondition (trap : Bool) : List Token → Condition → List Token → Prop where
  | plain {ts rest : List Token} {l : Expr} (left : ReadsExpr trap ts l rest)
      (stop : l.isWhole = false ∨ (nextKind rest).isComparison = false) :
      ReadsCondition trap ts (.plain l) rest
  | compare {ts r rest : List Token} {l right : Expr} {op : Token}
      (left : ReadsExpr trap ts l (op :: r)) (whole : l.isWhole = true)
      (kind : op.kind.isComparison = true) (second : ReadsExpr trap r right rest) :
      ReadsCondition trap ts (.compare l op.kind right) rest

mutual
theorem readsOperand (trap : Bool) (ts : List Token) :
    ReadsOperand trap ts (readOperand trap ts).value (readOperand trap ts).rest := by
  cases ts with
  | nil => rw [readOperand]; exact .nothing
  | cons t r =>
    rw [readOperand.eq_def]
    dsimp only
    split
    · rename_i hkind
      split
      · exact .name hkind nofun
      · rename_i p r
        split
        · rename_i hp
          exact .call hkind hp (readsArguments trap r)
        · rename_i hp
          exact .name hkind hp
    all_goals rename_i hkind
    · exact .literal (hkind ▸ nofun) (hkind ▸ rfl)
    · exact .literal (hkind ▸ nofun) (hkind ▸ rfl)
    · exact .literal (hkind ▸ nofun) (hkind ▸ rfl)
    · exact .literal (hkind ▸ nofun) (hkind ▸ rfl)
    · exact .literal (hkind ▸ nofun) (hkind ▸ rfl)
    · refine .missing ?_
      cases hk : t.kind <;> simp_all [Kind.startsOperand]
termination_by (ts.length, 0)

theorem readsArguments (trap : Bool) (ts : List Token) :
    ReadsArguments trap ts (readArguments trap ts).value (readArguments trap ts).rest := by
  cases ts with
  | nil =>
    rw [readArguments]
    exact .some nofun (readsArgument trap [])
  | cons c r =>
    rw [readArguments]
    split
    · rename_i hc
      exact .none hc
    · rename_i hc
      exact .some hc (readsArgument trap (c :: r))
termination_by (ts.length, 3)

theorem readsArgument (trap : Bool) (ts : List Token) :
    ReadsArgument trap ts (readArgument trap ts).value (readArgument trap ts).rest := by
  have hexpr := readsExpr trap ts
  rw [readArgument]
  split
  · rename_i e le heq
    rw [heq] at hexpr
    exact .atEnd hexpr
  · rename_i e c r le heq
    rw [heq] at hexpr
    have hlt : r.length < ts.length := le
    split
    · rename_i hc
      exact .next hexpr hc (readsArgument trap r)
    · rename_i hc
      by_cases hp : c.kind = .rparen
      · rw [if_pos hp]
        exact .last hexpr hp
      · rw [if_neg hp]
        exact .other hexpr hc hp
termination_by (ts.length, 2)

theorem readsExpr (trap : Bool) (ts : List Token) :
    ReadsExpr trap ts (readExpr trap ts).value (readExpr trap ts).rest := by
  have hleft := readsOperand trap ts
  rw [readExpr]
  split
  · rename_i left le heq
    rw [heq] at hleft
    exact .single hleft (.inr rfl)
  · rename_i left op r le heq
    rw [heq] at hleft
    have hlt : r.length < ts.length := le
    split
    · rename_i hop
      exact .binary hleft hop.1 hop.2 (readsOperand trap r)
    · rename_i hop
      exact .single hleft (by cases hw : left.isWhole <;> simp_all [nextKind])
termination_by (ts.length, 1)
end

theorem readsCondition (trap : Bool) (ts : List Token) :
    ReadsCondition trap ts (readCondition trap ts).value (readCondition trap ts).rest := by
  have hleft := readsExpr trap ts
  rw [readCondition]
  split
  · rename_i left le heq
    rw [heq] at hleft
    exact .plain hleft (.inr rfl)
  · rename_i left op r le heq
    rw [heq] at hleft
    split
    · rename_i hop
      exact .compare hleft hop.1 hop.2 (readsExpr trap r)
    · rename_i hop
      exact .plain hleft (by cases hw : left.isWhole <;> simp_all [nextKind])

mutual
theorem ReadsOperand.suffix {trap : Bool} {ts rest : List Token} {o : Operand} :
    ReadsOperand trap ts o rest → rest <:+ ts
  | .nothing => List.suffix_refl _
  | .name _ _ | .literal _ _ | .missing _ => List.suffix_cons _ _
  | .call _ _ inner => (inner.suffix.trans (List.suffix_cons _ _)).trans (List.suffix_cons _ _)

theorem ReadsArguments.suffix {trap : Bool} {ts rest : List Token} {args : Arguments} :
    ReadsArguments trap ts args rest → rest <:+ ts
  | .none _ => List.suffix_cons _ _
  | .some _ inner => inner.suffix

theorem ReadsArgument.suffix {trap : Bool} {ts rest : List Token} {args : Arguments} :
    ReadsArgument trap ts args rest → rest <:+ ts
  | .atEnd _ => List.nil_suffix
  | .next first _ more => more.suffix.trans ((List.suffix_cons _ _).trans first.suffix)
  | .last first _ | .other first _ _ => (List.suffix_cons _ _).trans first.suffix

theorem ReadsExpr.suffix {trap : Bool} {ts rest : List Token} {e : Expr} :
    ReadsExpr trap ts e rest → rest <:+ ts
  | .single left _ => left.suffix
  | .binary left _ _ second => second.suffix.trans ((List.suffix_cons _ _).trans left.suffix)
end

theorem ReadsCondition.suffix {trap : Bool} {ts rest : List Token} {c : Condition} :
    ReadsCondition trap ts c rest → rest <:+ ts
  | .plain left _ => left.suffix
  | .compare left _ _ second => second.suffix.trans ((List.suffix_cons _ _).trans left.suffix)

/-- A token of the kind it should be is the next one. -/
theorem expect_ok {kind : Kind} {ts rest : List Token} {t : Token} {le : rest.length ≤ ts.length}
    (h : expect kind ts = ⟨.ok t, rest, le⟩) : ts = t :: rest ∧ t.kind = kind := by
  cases ts with
  | nil => exact absurd (congrArg Reading.value h) nofun
  | cons u r =>
    have hv := congrArg Reading.value h
    have hr : r = rest := congrArg Reading.rest h
    by_cases hk : u.kind = kind
    · simp only [expect, if_pos hk, Except.ok.injEq] at hv
      exact ⟨by rw [hv, hr], hv ▸ hk⟩
    · simp only [expect, if_neg hk, reduceCtorEq] at hv

/-- A token that should be of another kind is passed over. -/
theorem expect_error {kind : Kind} {ts rest : List Token} {fault : Misplaced}
    {le : rest.length ≤ ts.length} (h : expect kind ts = ⟨.error fault, rest, le⟩) :
    fault.found.toList ++ rest = ts := by
  cases ts with
  | nil =>
    have hv := congrArg Reading.value h
    have hr : [] = rest := congrArg Reading.rest h
    simp only [expect, Except.error.injEq] at hv
    rw [← hv, ← hr]
    rfl
  | cons u r =>
    have hv := congrArg Reading.value h
    have hr : r = rest := congrArg Reading.rest h
    by_cases hk : u.kind = kind
    · simp only [expect, if_pos hk, reduceCtorEq] at hv
    · simp only [expect, if_neg hk, Except.error.injEq] at hv
      rw [← hv, ← hr]
      rfl

theorem suffix_readMoreParams (ts : List Token) : (readMoreParams ts).rest <:+ ts := by
  fun_induction readMoreParams ts with
  | case1 => exact List.suffix_refl _
  | case2 c r _ fault rest le heq =>
    obtain rfl := expect_error heq
    exact (List.suffix_append _ _).trans (List.suffix_cons _ _)
  | case3 c r _ p rest le heq more =>
    rename_i ih
    obtain ⟨rfl, -⟩ := expect_ok heq
    exact (ih.trans (List.suffix_cons _ _)).trans (List.suffix_cons _ _)
  | case4 => exact List.suffix_refl _

theorem suffix_readParams (ts : List Token) : (readParams ts).rest <:+ ts := by
  cases ts with
  | nil => exact List.suffix_refl _
  | cons p r =>
    rw [readParams]
    split
    · exact (suffix_readMoreParams r).trans (List.suffix_cons _ _)
    · exact List.suffix_refl _

theorem suffix_readFunction (keyword : Token) (ts : List Token) :
    (readFunction keyword ts).rest <:+ ts := by
  rw [readFunction]
  split
  · rename_i heq
    obtain rfl := expect_error heq
    exact List.suffix_append _ _
  · rename_i name r₁ le₁ heq₁
    obtain ⟨rfl, -⟩ := expect_ok heq₁
    refine List.IsSuffix.trans ?_ (List.suffix_cons _ _)
    split
    · rename_i heq
      obtain rfl := expect_error heq
      exact List.suffix_append _ _
    · rename_i paren r₂ le₂ heq₂
      obtain ⟨rfl, -⟩ := expect_ok heq₂
      refine List.IsSuffix.trans ?_ (List.suffix_cons _ _)
      have hparams := suffix_readParams r₂
      split
      · rename_i heq
        rwa [heq] at hparams
      · rename_i params r₃ le₃ heq₃
        rw [heq₃] at hparams
        refine List.IsSuffix.trans ?_ hparams
        split
        · rename_i heq
          obtain rfl := expect_error heq
          exact List.suffix_append _ _
        · rename_i heq
          obtain ⟨rfl, -⟩ := expect_ok heq
          exact List.suffix_cons _ _

theorem suffix_readVariable (trap : Bool) (ts : List Token) :
    (readVariable trap ts).rest <:+ ts := by
  rw [readVariable]
  split
  · rename_i heq
    obtain rfl := expect_error heq
    exact List.suffix_append _ _
  · rename_i name r₁ le₁ heq₁
    obtain ⟨rfl, -⟩ := expect_ok heq₁
    refine List.IsSuffix.trans ?_ (List.suffix_cons _ _)
    split
    · rename_i heq
      obtain rfl := expect_error heq
      exact List.suffix_append _ _
    · rename_i r₂ le₂ heq₂
      obtain ⟨rfl, -⟩ := expect_ok heq₂
      exact (readsExpr trap r₂).suffix.trans (List.suffix_cons _ _)

theorem suffix_readCallOrAssign (trap : Bool) (name : Token) (ts : List Token) :
    (readCallOrAssign trap name ts).rest <:+ ts := by
  cases ts with
  | nil => exact List.suffix_refl _
  | cons t r =>
    rw [readCallOrAssign]
    split
    · exact (readsArguments trap r).suffix.trans (List.suffix_cons _ _)
    · split
      · exact (readsExpr trap r).suffix.trans (List.suffix_cons _ _)
      · exact List.suffix_refl _

/-- **What a statement leaves is the end of what it got.** -/
theorem suffix_readStatement (trap : Bool) (t : Token) (ts : List Token) :
    (readStatement trap t ts).rest <:+ ts := by
  rw [readStatement]
  split
  · exact suffix_readVariable trap ts
  · rw [readPrint]
    split
    · exact (readsExpr trap ts).suffix
    · exact List.tail_suffix ts
  · exact suffix_readFunction t ts
  · exact suffix_readCallOrAssign trap t ts
  · exact List.suffix_refl _
  · exact List.suffix_refl _
  · exact (readsCondition trap ts).suffix
  · exact (readsCondition trap ts).suffix
  · exact List.suffix_refl _
  · split
    · exact (readsExpr trap ts).suffix
    · exact List.suffix_refl _
  · exact List.suffix_refl _
  · exact List.suffix_refl _
  · exact List.suffix_refl _

/-- The tokens of a statement and those it leaves are all the tokens. -/
theorem own_readStatement (trap : Bool) (t : Token) (ts : List Token) :
    (t :: ts).take ((t :: ts).length - (readStatement trap t ts).rest.length) ++
      (readStatement trap t ts).rest = t :: ts := by
  obtain ⟨own, hown⟩ := (suffix_readStatement trap t ts).trans (List.suffix_cons t ts)
  have htake : (t :: ts).take ((t :: ts).length - (readStatement trap t ts).rest.length) = own := by
    rw [← hown, List.length_append, Nat.add_sub_cancel, List.take_left]
  rw [htake, hown]

end Tarjuman
