/-
# How names are spelled

The text of a statement is that of its tree once it is known how each name in it is
spelled (`Statement.spelled`).  A name that is referred to is looked up in the table, a
name that is bound is renamed, and that is all a table does to the text: `Desk.fragment_write`.
What is written depends on the statements before it only through the names that they have
bound (`Desk.names_after`), and the references that come before a binding of their name are
reported, each where it stands (`Desk.unbound_writeAll`).
-/

import Tarjuman.Proofs.NameUses
import Tarjuman.Proofs.ReportPlaces
import Tarjuman.Proofs.StatementRanges

namespace Tarjuman

/-! ## The text of a tree -/

section Spelled

variable (src : Source.Tokens) (spell : Token → Text)

mutual
/-- The text of an operand, its names spelled by `spell`. -/
def Operand.spelled : Operand → Option Text
  | .name t => some (spell t)
  | .literal t => some (Lexicon.literal ⟨src, {}⟩ t)
  | .call name args =>
    if args.closing = .closed then
      some (spell name ++ "(" ++ Text.join "," (Arguments.spelled args) ++ ")")
    else none
  | .missing _ => none
/-- The text of an expression. -/
def Expr.spelled : Expr → Option Text
  | .single l => Operand.spelled l
  | .binary l op r =>
    match Operand.spelled l, Operand.spelled r with
    | some a, some b => some ("(" ++ a ++ " " ++ op.operatorText ++ " " ++ b ++ ")")
    | _, _ => none
/-- The texts of the arguments that are whole. -/
def Arguments.spelled : Arguments → List Text
  | .done _ => []
  | .more e rest => (Expr.spelled e).toList ++ Arguments.spelled rest
end

/-- The text of a condition. -/
def Condition.spelled : Condition → Option Text
  | .plain e => e.spelled src spell
  | .compare l op r =>
    match l.spelled src spell, r.spelled src spell with
    | some a, some b => some (a ++ " " ++ op.operatorText ++ " " ++ b)
    | _, _ => none

/-- The fragment around the text of an expression: nothing unless the expression is whole. -/
def Draft.around (before behind : Text) (v : Option Text) : Text :=
  (v.map fun t => before ++ t ++ behind).getD []

/-- The fragment of a statement that has an expression or the head of a function in it, its
references spelled by `spell` and the names it binds by `rename`. -/
def Statement.spelled (rename : Text → Text) : Statement → Option Text
  | .declare name quoted value =>
    some (Draft.around ("let " ++ rename (src.text name) ++ " = (") ");"
      ((value.spelled src spell).map fun v => if quoted then v.quoted else v))
  | .print value => some (Draft.around "console.log(" ");" (value.spelled src spell))
  | .function _ (some name) params none =>
    some ("function " ++ rename (src.text name) ++ " (" ++
      Text.join "," (params.map fun p => rename (src.text p)) ++ ") \x7b")
  | .function .. => some []
  | .call callee => some (Draft.around [] [] (callee.spelled src spell))
  | .assign name value => some (Draft.around (spell name ++ " = (") ");" (value.spelled src spell))
  | .whileLoop _ c => some (Draft.around "while(" ") \x7b" (c.spelled src spell))
  | .ifBranch _ c => some (Draft.around "if(" ") \x7b" (c.spelled src spell))
  | .giveBack (some value) => some (Draft.around "return " ";" (value.spelled src spell))
  | _ => none

/-- Only a statement without names has no such fragment. -/
theorem Statement.exists_spelled (rename : Text → Text) {s : Statement} (h : s.uses ≠ []) :
    ∃ text, s.spelled src spell rename = some text := by
  cases s with
  | function keyword name params fault =>
    cases name <;> cases fault <;> exact ⟨_, rfl⟩
  | giveBack value =>
    cases value with
    | none => exact absurd rfl h
    | some value => exact ⟨_, rfl⟩
  | declare | print | call | assign | whileLoop | ifBranch => exact ⟨_, rfl⟩
  | _ => exact absurd rfl h

end Spelled

theorem Operand.isSome_spelled (src : Source.Tokens) (spell : Token → Text) (o : Operand) :
    (o.spelled src spell).isSome = o.isWhole := by
  cases o with
  | name | literal | missing => rfl
  | call name args =>
    rw [spelled, isWhole]
    split <;> simp [*]

theorem Expr.isSome_spelled (src : Source.Tokens) (spell : Token → Text) (e : Expr) :
    (e.spelled src spell).isSome = e.isWhole := by
  cases e with
  | single l => exact l.isSome_spelled src spell
  | binary l op r =>
    rw [spelled, isWhole, ← l.isSome_spelled src spell, ← r.isSome_spelled src spell]
    cases l.spelled src spell <;> cases r.spelled src spell <;> rfl

namespace Lexicon

variable (lx : Lexicon)

mutual
theorem text_operand : ∀ o : Operand,
    (lx.operand o).text = o.spelled lx.source fun t => (lx.resolve t).1
  | .name _ | .literal _ | .missing _ => rfl
  | .call name args => by
    rw [operand, Operand.spelled, ← texts_arguments args]
    cases args.closing <;> rfl
theorem text_expr : ∀ e : Expr,
    (lx.expr e).text = e.spelled lx.source fun t => (lx.resolve t).1
  | .single l => text_operand l
  | .binary l op r => by
    rw [expr, Expr.spelled, ← text_operand l, ← text_operand r]
    cases (lx.operand l).text <;> cases (lx.operand r).text <;> rfl
theorem texts_arguments : ∀ args : Arguments,
    (lx.arguments args).1 = args.spelled lx.source fun t => (lx.resolve t).1
  | .done (.missing _) | .done .closed | .done .endless => rfl
  | .more e rest => by
    rw [arguments, Arguments.spelled, ← text_expr e, ← texts_arguments rest]
end

theorem text_condition (c : Condition) :
    (lx.condition c).text = c.spelled lx.source fun t => (lx.resolve t).1 := by
  cases c with
  | plain e => exact lx.text_expr e
  | compare l op r =>
    rw [condition, Condition.spelled, ← lx.text_expr l, ← lx.text_expr r]
    cases (lx.expr l).text <;> cases (lx.expr r).text <;> rfl

end Lexicon

namespace Desk

variable (src : Source.Tokens) (style : Style)

theorem fragment_wrap (desk : Desk) {draft : Draft} {v : Option Text} (h : draft.text = v)
    (before behind : Text) {f : Text → Text} (hf : ∀ t, f t = before ++ t ++ behind) :
    (desk.wrap draft f).fragment = Draft.around before behind v := by
  rw [wrap, Draft.around, h]
  cases v with
  | none => rfl
  | some t => exact hf t

theorem spellings_bindParams (desk : Desk) (ts : List Token) :
    (desk.bindParams src style ts).1 = ts.map fun t => style.rename (src.text t) := by
  induction ts generalizing desk with
  | nil => rfl
  | cons t r ih => exact congrArg _ (ih _)

/-- **The table shows in a fragment only through the spelling of the references.** -/
theorem fragment_write (desk : Desk) (s : Statement) :
    ∀ text ∈ s.spelled src (fun t => (Lexicon.resolve ⟨src, desk.names⟩ t).1) style.rename,
      (desk.write src style s).fragment = text := by
  have hexpr := Lexicon.text_expr ⟨src, desk.names⟩
  have hcondition := Lexicon.text_condition ⟨src, desk.names⟩
  cases s with
  | declare name quoted value =>
    rintro text ⟨⟩
    rw [write, declare, hexpr]
    cases value.spelled src fun t => (Lexicon.resolve ⟨src, desk.names⟩ t).1 with
    | none => rfl
    | some v => rfl
  | print value =>
    rintro text ⟨⟩
    exact fragment_wrap desk (hexpr value) _ _ fun t => rfl
  | function keyword name params fault =>
    cases name with
    | none =>
      rintro text ⟨⟩
      rfl
    | some name =>
      cases fault with
      | some fault =>
        rintro text ⟨⟩
        rfl
      | none =>
        rintro text ⟨⟩
        rw [← spellings_bindParams src style]
        rfl
  | call callee =>
    rintro text ⟨⟩
    exact fragment_wrap desk (Lexicon.text_operand _ callee) [] [] fun t => (List.append_nil t).symm
  | assign name value =>
    rintro text ⟨⟩
    exact fragment_wrap desk (hexpr value) _ _ fun t => rfl
  | whileLoop keyword c =>
    rintro text ⟨⟩
    exact fragment_wrap _ (hcondition c) _ _ fun t => rfl
  | ifBranch keyword c =>
    rintro text ⟨⟩
    exact fragment_wrap _ (hcondition c) _ _ fun t => rfl
  | giveBack value =>
    cases value with
    | none => rintro text ⟨⟩
    | some value =>
      rintro text ⟨⟩
      exact fragment_wrap desk (hexpr value) _ _ fun t => rfl
  | _ => rintro text ⟨⟩

/-! ## The table behind a statement -/

theorem names_bindParams (desk : Desk) (ts : List Token) :
    (desk.bindParams src style ts).2.2.names =
      (ts.map .bind).foldl (Names.use style.rename src.text) desk.names := by
  induction ts generalizing desk with
  | nil => rfl
  | cons t r ih => exact ih _

theorem foldl_use_refer (rename : Text → Text) (text : Token → Text) (ns : Names)
    (ts : List Token) : (ts.map .refer).foldl (Names.use rename text) ns = ns := by
  induction ts with
  | nil => rfl
  | cons t r ih => exact ih

/-- **The table behind a statement** has what the statement binds on top of what it had. -/
theorem names_write (desk : Desk) (s : Statement) :
    (desk.write src style s).desk.names =
      s.uses.foldl (Names.use style.rename src.text) desk.names := by
  rw [Statement.uses, List.foldl_append, foldl_use_refer]
  cases s with
  | declare name quoted value =>
    have hwhole := value.isSome_spelled src fun t => (Lexicon.resolve ⟨src, desk.names⟩ t).1
    rw [write, declare, Lexicon.text_expr, Statement.bindings, ← hwhole]
    cases value.spelled src fun t => (Lexicon.resolve ⟨src, desk.names⟩ t).1 with
    | none => rfl
    | some v => rfl
  | function keyword name params fault =>
    cases name with
    | none => rfl
    | some name => exact names_bindParams src style _ params
  | close keyword =>
    rw [write, close]
    split
    · rfl
    · split <;> rfl
  | elseBranch keyword =>
    rw [write, otherwise]
    split
    · rfl
    · split <;> rfl
  | giveBack value => cases value <;> rfl
  | _ => rfl

theorem names_after (desk : Desk) (ps : List Placed) :
    (desk.after src style ps).names =
      (Placed.uses ps).foldl (Names.use style.rename src.text) desk.names := by
  induction ps generalizing desk with
  | nil => rfl
  | cons p ps ih =>
    rw [Placed.uses_cons, List.foldl_append, ← names_write]
    exact ih _

end Desk

/-! ## Reports of unbound names -/

/-- The finding says that a name is not bound. -/
def Diagnostic.isUnbound (d : Diagnostic) : Bool := d.code = .unboundIdentifier

/-- The report of a reference to a name that is not bound. -/
def Source.Tokens.unbound (src : Source.Tokens) (t : Token) : Diagnostic :=
  .error .unboundIdentifier t.span ("unbound identifier " ++ (src.text t).quoted)

namespace Lexicon

variable (lx : Lexicon)

/-- A name is spelled by the table, or as it stands, and then it is reported. -/
theorem resolve_of_maps {rename : Text → Text} {bound : List Text}
    (h : lx.names.Maps rename bound) (t : Token) :
    lx.resolve t = if lx.source.text t ∈ bound then (rename (lx.source.text t), [])
      else (lx.source.text t, [lx.source.unbound t]) := by
  rw [resolve, h]
  by_cases hbound : lx.source.text t ∈ bound
  · rw [if_pos hbound, if_pos hbound]
  · rw [if_neg hbound, if_neg hbound]
    rfl

/-- Of some references those are reported whose names are not bound. -/
theorem unbound_references {rename : Text → Text} {bound : List Text}
    (h : lx.names.Maps rename bound) (ts : List Token) :
    (ts.flatMap fun t => (lx.resolve t).2) =
      (ts.filter (lx.source.text · ∉ bound)).map lx.source.unbound := by
  induction ts with
  | nil => rfl
  | cons t ts ih =>
    rw [List.flatMap_cons, ih, lx.resolve_of_maps h, List.filter_cons]
    by_cases hbound : lx.source.text t ∈ bound <;> simp [hbound]

theorem filter_resolve (t : Token) :
    (lx.resolve t).2.filter (·.isUnbound) = (lx.resolve t).2 := by
  rw [resolve]
  split <;> rfl

theorem isUnbound_misplaced (src : Source.Tokens) (m : Misplaced) :
    (src.misplaced m).isUnbound = false := by
  rw [Source.Tokens.misplaced]
  split <;> rfl

mutual
theorem unbound_operand : ∀ o : Operand, (lx.operand o).reports.filter (·.isUnbound) =
    o.references.flatMap fun t => (lx.resolve t).2
  | .name t => by
    rw [operand, Operand.references, List.flatMap_singleton]
    exact lx.filter_resolve t
  | .literal _ | .missing _ => rfl
  | .call name args => by
    rw [Operand.references, List.flatMap_cons, ← unbound_arguments args, ← lx.filter_resolve name,
      ← List.filter_append, operand]
    cases args.closing <;> rfl
theorem unbound_expr : ∀ e : Expr, (lx.expr e).reports.filter (·.isUnbound) =
    e.references.flatMap fun t => (lx.resolve t).2
  | .single l => unbound_operand l
  | .binary l op r => by
    rw [Expr.references, List.flatMap_append, ← unbound_operand l, ← unbound_operand r,
      ← List.filter_append, expr]
    cases (lx.operand l).text <;> cases (lx.operand r).text <;> rfl
theorem unbound_arguments : ∀ args : Arguments, (lx.arguments args).2.filter (·.isUnbound) =
    args.references.flatMap fun t => (lx.resolve t).2
  | .done (.missing _) => by simp [arguments, isUnbound_misplaced, Arguments.references]
  | .done .closed | .done .endless => rfl
  | .more e rest => by
    rw [Arguments.references, List.flatMap_append, ← unbound_expr e, ← unbound_arguments rest,
      ← List.filter_append, arguments]
end

theorem unbound_condition (c : Condition) : (lx.condition c).reports.filter (·.isUnbound) =
    c.references.flatMap fun t => (lx.resolve t).2 := by
  cases c with
  | plain e => exact lx.unbound_expr e
  | compare l op r =>
    rw [Condition.references, List.flatMap_append, ← lx.unbound_expr l, ← lx.unbound_expr r,
      ← List.filter_append, condition]
    cases (lx.expr l).text <;> cases (lx.expr r).text <;> rfl

end Lexicon

namespace Desk

variable (src : Source.Tokens) (style : Style)

theorem unbound_bind (warn : Bool) (desk : Desk) (t : Token) :
    (desk.bind src style warn t).2.1.filter (·.isUnbound) = [] := by
  rw [bind]
  dsimp only
  rw [List.filter_append]
  split <;> split <;> rfl

theorem unbound_bindParams (desk : Desk) (ts : List Token) :
    (desk.bindParams src style ts).2.1.filter (·.isUnbound) = [] := by
  induction ts generalizing desk with
  | nil => rfl
  | cons t r ih =>
    rw [bindParams]
    dsimp only
    rw [List.filter_append, unbound_bind, ih, List.append_nil]

theorem unbound_faults (fault : Option Misplaced) :
    (fault.toList.map src.misplaced).filter (·.isUnbound) = [] := by
  cases fault with
  | none => rfl
  | some m => simp [Lexicon.isUnbound_misplaced]

/-- **What a statement reports about unbound names** are its own references. -/
theorem unbound_write (desk : Desk) (s : Statement) :
    (desk.write src style s).reports.filter (·.isUnbound) =
      s.references.flatMap fun t => (Lexicon.resolve ⟨src, desk.names⟩ t).2 := by
  have hexpr := Lexicon.unbound_expr ⟨src, desk.names⟩
  have hcondition := Lexicon.unbound_condition ⟨src, desk.names⟩
  cases s with
  | declare name quoted value =>
    rw [write, declare, Statement.references, ← hexpr]
    dsimp only
    split
    · rfl
    · dsimp only
      rw [List.filter_append, unbound_bind, List.append_nil]
  | print value => exact hexpr value
  | function keyword name params fault =>
    cases name with
    | none => exact unbound_faults src fault
    | some name =>
      rw [write, function]
      dsimp only
      rw [List.filter_append, List.filter_append, unbound_bind, unbound_bindParams, unbound_faults]
      rfl
  | call callee => exact Lexicon.unbound_operand _ callee
  | assign name value =>
    rw [write, Statement.references, List.flatMap_cons, ← hexpr, ← Lexicon.filter_resolve,
      ← List.filter_append]
    rfl
  | close keyword =>
    rw [write, close]
    split
    · rfl
    · split <;> rfl
  | whileLoop keyword c => exact hcondition c
  | ifBranch keyword c => exact hcondition c
  | elseBranch keyword =>
    rw [write, otherwise]
    split
    · rfl
    · split <;> rfl
  | giveBack value =>
    cases value with
    | none => rfl
    | some value => exact hexpr value
  | broken fault => exact unbound_faults src (some fault)
  | finish =>
    rw [write, finish]
    dsimp only
    split
    · refine List.filter_eq_nil_iff.2 fun d hd => ?_
      obtain ⟨b, -, rfl⟩ := List.mem_map.1 hd
      exact Bool.false_ne_true
    · rfl
  | _ => rfl

/-- **What a run reports about unbound names**: each reference that no binding of its name
comes before, in their order. -/
theorem unbound_writeAll {desk : Desk} {bound : List Text}
    (h : desk.names.Maps style.rename bound) (ps : List Placed) :
    ((desk.writeAll src style ps).flatMap (·.reports)).filter (·.isUnbound) =
      (unboundIn src.text bound (Placed.uses ps)).map src.unbound := by
  induction ps generalizing desk bound with
  | nil => rfl
  | cons p ps ih =>
    have hnames := names_write src style desk p.statement
    have hrest := ih (hnames ▸ h.foldl_use p.statement.uses)
    have huses : unboundIn src.text bound p.statement.uses =
        p.statement.references.filter (src.text · ∉ bound) := by
      rw [Statement.uses, unboundIn_append, unboundIn_refer, unboundIn_bind, List.append_nil]
    rw [writeAll, List.flatMap_cons, List.filter_append, hrest, unbound_write,
      Lexicon.unbound_references ⟨src, desk.names⟩ h, Placed.uses_cons, unboundIn_append, huses,
      List.map_append]

end Desk

/-! ## Each finding once -/

/-- A finding is kept, or one that says the same. -/
theorem Diagnostic.exists_same_mem_distinctFrom (seen : List Diagnostic) {d : Diagnostic}
    {ds : List Diagnostic} (h : d ∈ ds) :
    ∃ e, (e ∈ seen ∨ e ∈ distinctFrom seen ds) ∧ d.same e = true := by
  fun_induction distinctFrom seen ds with
  | case1 => cases h
  | case2 seen e r hany ih =>
    rcases List.mem_cons.1 h with rfl | h
    · obtain ⟨e, he, hsame⟩ := List.any_eq_true.1 hany
      exact ⟨e, .inl he, hsame⟩
    · exact ih h
  | case3 seen e r _ ih =>
    rcases List.mem_cons.1 h with rfl | h
    · exact ⟨d, .inr List.mem_cons_self, by simp [same]⟩
    · obtain ⟨f, hf, hsame⟩ := ih h
      refine ⟨f, ?_, hsame⟩
      rcases hf with hf | hf
      · rcases List.mem_cons.1 hf with rfl | hf
        · exact .inr List.mem_cons_self
        · exact .inl hf
      · exact .inr (List.mem_cons_of_mem _ hf)

end Tarjuman
