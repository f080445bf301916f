/-
# What a run does with names

A statement refers to the names in its expressions, and it binds names: a declaration
binds its own name once its value was read, and only if the value is whole; the head of a
function binds its name and the parameters that were read, whether or not the head is
whole.  `Statement.uses` lists both in the order in which a run comes to them.

Two things are read off such a list.  The table of names after it has exactly the names
that were bound, each in its spelling (`Names.Maps.foldl_use`), and a reference stands
behind a binding of its name or is unbound (`mem_unboundIn`).  That the references, and
the bindings, of a statement come in the order of its tokens is `Placed.sublist_names`.
-/

import Mathlib.Data.List.Basic
import Tarjuman.Proofs.TreeTokens
import Tarjuman.Script.Names

namespace Tarjuman

/-- What is done with a name. -/
inductive NameUse where
  | bind (t : Token)
  | refer (t : Token)
deriving DecidableEq, Repr

mutual
/-- The names that an operand refers to. -/
def Operand.references : Operand → List Token
  | .name t => [t]
  | .call name args => name :: args.references
  | .literal _ | .missing _ => []
/-- The names that an expression refers to. -/
def Expr.references : Expr → List Token
  | .single l => l.references
  | .binary l _ r => l.references ++ r.references
/-- The names that arguments refer to. -/
def Arguments.references : Arguments → List Token
  | .done _ => []
  | .more e rest => e.references ++ rest.references
end

/-- The names that a condition refers to. -/
def Condition.references : Condition → List Token
  | .plain e => e.references
  | .compare l _ r => l.references ++ r.references

namespace Statement

/-- The names that a statement refers to: operands, calls and the target of an
assignment. -/
def references : Statement → List Token
  | .declare _ _ value | .print value | .giveBack (some value) => value.references
  | .call callee => callee.references
  | .assign name value => name :: value.references
  | .whileLoop _ c | .ifBranch _ c => c.references
  | _ => []

/-- The names that a statement binds. -/
def bindings : Statement → List Token
  | .declare name _ value => if value.isWhole then [name] else []
  | .function _ (some name) params _ => name :: params
  | _ => []

/-- What a statement does with names, in the order in which a run comes to it: no statement
refers to a name behind one that it binds itself. -/
def uses (s : Statement) : List NameUse := s.references.map .refer ++ s.bindings.map .bind

end Statement

/-- What statements do with names. -/
def Placed.uses (ps : List Placed) : List NameUse := ps.flatMap (·.statement.uses)

theorem Placed.uses_cons (p : Placed) (ps : List Placed) :
    uses (p :: ps) = p.statement.uses ++ uses ps := List.flatMap_cons

/-! ## In the order of the tokens -/

mutual
theorem Operand.sublist_references : ∀ o : Operand, o.references.Sublist o.tokens
  | .name _ => List.Sublist.refl _
  | .call _ args => (Arguments.sublist_references args).cons_cons _
  | .literal _ | .missing _ => List.nil_sublist _
theorem Expr.sublist_references : ∀ e : Expr, e.references.Sublist e.tokens
  | .single l => Operand.sublist_references l
  | .binary l _ r => (Operand.sublist_references l).append (Operand.sublist_references r)
theorem Arguments.sublist_references : ∀ args : Arguments, args.references.Sublist args.tokens
  | .done _ => List.nil_sublist _
  | .more e rest => (Expr.sublist_references e).append (Arguments.sublist_references rest)
end

theorem Condition.sublist_references (c : Condition) : c.references.Sublist c.tokens := by
  cases c with
  | plain e => exact e.sublist_references
  | compare l op r => exact l.sublist_references.append r.sublist_references

theorem Statement.sublist_bindings (s : Statement) : s.bindings.Sublist s.tokens := by
  cases s with
  | declare name quoted value =>
    rw [bindings]
    split
    · exact (List.nil_sublist _).cons_cons name
    · exact List.nil_sublist _
  | function keyword name params fault =>
    cases name with
    | none => exact List.nil_sublist _
    | some name => exact ((List.sublist_append_left ..).cons_cons name).cons keyword
  | _ => exact List.nil_sublist _

/-- The names of a statement that is read stand before the tokens that are left. -/
structure NamesAhead (ts : List Token) {r : List Token} (s : Reading Statement r) : Prop where
  references : (s.value.references ++ s.rest).Sublist ts
  bindings : (s.value.bindings ++ s.rest).Sublist ts

/-- A statement that binds no name. -/
theorem NamesAhead.of_references {ts r : List Token} {s : Reading Statement r}
    (h : (s.value.references ++ s.rest).Sublist ts) (hbindings : s.value.bindings = []) :
    NamesAhead ts s := by
  refine ⟨h, ?_⟩
  rw [hbindings]
  exact (List.sublist_append_right ..).trans h

theorem ReadsExpr.sublist_references {trap : Bool} {ts rest : List Token} {e : Expr}
    (h : ReadsExpr trap ts e rest) : (e.references ++ rest).Sublist ts :=
  (e.sublist_references.append_right rest).trans h.sublist

theorem namesAhead_readVariable (trap : Bool) (t : Token) (ts : List Token) :
    NamesAhead (t :: ts) (readVariable trap ts) := by
  rw [readVariable]
  split
  · rename_i heq
    obtain rfl := expect_error heq
    exact .of_references ((List.sublist_append_right ..).cons t) rfl
  · rename_i name r₁ le₁ heq₁
    obtain ⟨rfl, -⟩ := expect_ok heq₁
    split
    · rename_i heq
      obtain rfl := expect_error heq
      exact .of_references (((List.sublist_append_right ..).cons name).cons t) rfl
    · rename_i sign r₂ le₂ heq₂
      obtain ⟨rfl, -⟩ := expect_ok heq₂
      have hvalue := (readsExpr trap r₂).sublist_references
      have hrest := (List.sublist_append_right _ _).trans hvalue
      refine ⟨((hvalue.cons sign).cons name).cons t, ?_⟩
      show ((if _ then [name] else []) ++ _ : List Token).Sublist _
      split
      · exact ((hrest.cons sign).cons_cons name).cons t
      · exact ((hrest.cons sign).cons name).cons t

theorem namesAhead_readFunction (t : Token) (ts : List Token) :
    NamesAhead (t :: ts) (readFunction t ts) := by
  have htokens := sublist_readFunction t ts
  have hreferences : (readFunction t ts).value.references = [] := by
    rw [readFunction]
    split
    · rfl
    split
    · rfl
    split
    · rfl
    split <;> rfl
  refine ⟨?_, ?_⟩
  · rw [hreferences]
    exact (List.sublist_append_right _ _).trans htokens
  · exact ((Statement.sublist_bindings _).append_right _).trans htokens

theorem namesAhead_readCallOrAssign (trap : Bool) (t : Token) (ts : List Token) :
    NamesAhead (t :: ts) (readCallOrAssign trap t ts) := by
  cases ts with
  | nil => exact .of_references (List.nil_sublist _) rfl
  | cons u r =>
    rw [readCallOrAssign]
    split
    · have hargs := ((Arguments.sublist_references _).append_right _).trans
        (readsArguments trap r).sublist
      exact .of_references ((hargs.cons u).cons_cons t) rfl
    · split
      · have hvalue := (readsExpr trap r).sublist_references
        exact .of_references ((hvalue.cons u).cons_cons t) rfl
      · exact .of_references (List.sublist_cons_self ..) rfl

/-- **The names of a statement come in the order of its tokens.** -/
theorem namesAhead_readStatement (trap : Bool) (t : Token) (ts : List Token) :
    NamesAhead (t :: ts) (readStatement trap t ts) := by
  have hnone : ([] ++ ts).Sublist (t :: ts) := List.sublist_cons_self ..
  have hvalue := (readsExpr trap ts).sublist_references.cons t
  have hcondition := ((((readCondition trap ts).value.sublist_references).append_right _).trans
    (readsCondition trap ts).sublist).cons t
  rw [readStatement]
  split
  · exact namesAhead_readVariable trap t ts
  · rw [readPrint]
    split
    · exact .of_references hvalue rfl
    · exact .of_references ((List.tail_sublist ts).cons t) rfl
  · exact namesAhead_readFunction t ts
  · exact namesAhead_readCallOrAssign trap t ts
  · exact .of_references hnone rfl
  · exact .of_references hnone rfl
  · exact .of_references hcondition rfl
  · exact .of_references hcondition rfl
  · exact .of_references hnone rfl
  · split
    · exact .of_references hvalue rfl
    · exact .of_references hnone rfl
  · exact .of_references hnone rfl
  · exact .of_references hnone rfl
  · exact .of_references hnone rfl

/-- The names that a statement refers to, and those that it binds, are among its tokens, in
their order. -/
theorem Placed.sublist_names (trap : Bool) (ts : List Token) :
    ∀ p ∈ readStatements trap ts,
      p.statement.references.Sublist p.tokens ∧ p.statement.bindings.Sublist p.tokens := by
  fun_induction readStatements trap ts with
  | case1 => exact List.forall_mem_singleton.2 ⟨List.nil_sublist _, List.nil_sublist _⟩
  | case2 t r s ih =>
    have hnames := namesAhead_readStatement trap t r
    rw [← own_readStatement trap t r] at hnames
    exact List.forall_mem_cons.2 ⟨⟨(List.append_sublist_append_right _).1 hnames.references,
      (List.append_sublist_append_right _).1 hnames.bindings⟩, ih⟩

/-! ## The table of names -/

namespace NameUse

/-- The names that are bound. -/
def bound (text : Token → Text) (us : List NameUse) : List Text :=
  us.filterMap fun
    | bind t => some (text t)
    | refer _ => none

end NameUse

namespace Names

theorem lookup_cons (k v k' : Text) (r : List (Text × Text)) :
    ((k, v) :: r).lookup k' = if k' = k then some v else r.lookup k' := by
  rw [List.lookup_cons]
  by_cases h : k' = k
  · simp [h]
  · rw [beq_eq_false_iff_ne.2 h, if_neg h]

theorem lookup_put (k v k' : Text) (l : List (Text × Text)) :
    (put k v l).lookup k' = if k' = k then some v else l.lookup k' := by
  induction l with
  | nil => exact lookup_cons k v k' []
  | cons e r ih =>
    obtain ⟨k₀, v₀⟩ := e
    rw [put]
    split
    · rename_i hk
      subst hk
      rw [lookup_cons, lookup_cons]
      split <;> rfl
    · rename_i hk
      rw [lookup_cons, lookup_cons, ih]
      by_cases h : k' = k₀
      · subst h
        rw [if_pos rfl, if_neg hk, if_pos rfl]
      · rw [if_neg h, if_neg h]

/-- The table has exactly the names `bound`, each in its spelling. -/
def Maps (rename : Text → Text) (bound : List Text) (ns : Names) : Prop :=
  ∀ raw, ns.lookup raw = if raw ∈ bound then some (rename raw) else none

/-- The spelling of a reference by such a table: renamed if its name is bound, otherwise as
it stands. -/
def spelling (text : Token → Text) (rename : Text → Text) (bound : List Text) (t : Token) : Text :=
  if text t ∈ bound then rename (text t) else text t

theorem maps_empty (rename : Text → Text) : Maps rename [] {} := fun _ => rfl

/-- One more name. -/
theorem Maps.bind {rename : Text → Text} {bound : List Text} {ns : Names}
    (h : ns.Maps rename bound) (raw : Text) :
    (ns.bind rename raw).2.Maps rename (bound ++ [raw]) := by
  intro other
  have hput := lookup_put raw (rename raw) other ns.spellings
  show (put raw (rename raw) ns.spellings).lookup other = _
  rw [hput, show ns.spellings.lookup other = ns.lookup other from rfl, h other]
  by_cases hraw : other = raw
  · subst hraw
    simp
  · simp [hraw]

/-- The table after one use. -/
def use (rename : Text → Text) (text : Token → Text) (ns : Names) : NameUse → Names
  | .bind t => (ns.bind rename (text t)).2
  | .refer _ => ns

/-- **Every point of a run**: the table has the names that were bound before and those that
have been bound since. -/
theorem Maps.foldl_use {rename : Text → Text} {text : Token → Text} {bound : List Text}
    {ns : Names} (h : ns.Maps rename bound) (us : List NameUse) :
    (us.foldl (use rename text) ns).Maps rename (bound ++ NameUse.bound text us) := by
  induction us generalizing bound ns with
  | nil => rwa [NameUse.bound, List.filterMap_nil, List.append_nil]
  | cons u us ih =>
    cases u with
    | bind t =>
      have hrest := ih (h.bind (text t))
      rwa [List.append_assoc] at hrest
    | refer t => exact ih h

end Names

/-! ## References before a binding -/

/-- The references to names that are not bound when a run comes to them, `bound` before it
starts. -/
def unboundIn (text : Token → Text) (bound : List Text) : List NameUse → List Token
  | [] => []
  | .bind t :: us => unboundIn text (bound ++ [text t]) us
  | .refer t :: us =>
    if text t ∈ bound then unboundIn text bound us else t :: unboundIn text bound us

section Unbound

variable (text : Token → Text)

theorem unboundIn_append (bound : List Text) (us vs : List NameUse) :
    unboundIn text bound (us ++ vs) =
      unboundIn text bound us ++ unboundIn text (bound ++ NameUse.bound text us) vs := by
  induction us generalizing bound with
  | nil => rw [NameUse.bound, List.filterMap_nil, List.append_nil]; rfl
  | cons u us ih =>
    cases u with
    | bind t =>
      have hrest := ih (bound ++ [text t])
      rwa [List.append_assoc] at hrest
    | refer t =>
      rw [List.cons_append, unboundIn, unboundIn, ih]
      split <;> rfl

theorem unboundIn_refer (bound : List Text) (ts : List Token) :
    unboundIn text bound (ts.map .refer) = ts.filter (text · ∉ bound) := by
  induction ts with
  | nil => rfl
  | cons t ts ih =>
    rw [List.map_cons, unboundIn, ih, List.filter_cons]
    by_cases h : text t ∈ bound <;> simp [h]

theorem unboundIn_bind (bound : List Text) (ts : List Token) :
    unboundIn text bound (ts.map .bind) = [] := by
  induction ts generalizing bound with
  | nil => rfl
  | cons t ts ih => exact ih _

/-- **A reference is unbound exactly if no binding of its name comes before it.** -/
theorem mem_unboundIn {t : Token} {bound : List Text} {us : List NameUse} :
    t ∈ unboundIn text bound us ↔
      ∃ before behind, us = before ++ .refer t :: behind ∧
        text t ∉ bound ++ NameUse.bound text before := by
  induction us generalizing bound with
  | nil => simp [unboundIn]
  | cons u us ih =>
    cases u with
    | bind s =>
      rw [unboundIn, ih]
      constructor
      · rintro ⟨before, behind, rfl, hnot⟩
        rw [List.append_assoc] at hnot
        exact ⟨.bind s :: before, behind, rfl, hnot⟩
      · rintro ⟨before, behind, heq, hnot⟩
        cases before with
        | nil => cases heq
        | cons v before =>
          obtain ⟨rfl, rfl⟩ := List.cons.inj heq
          refine ⟨before, behind, rfl, ?_⟩
          rwa [List.append_assoc]
    | refer s =>
      -- The reference itself, or one behind it.
      have hrest : (∃ before behind, NameUse.refer s :: us = before ++ .refer t :: behind ∧
          text t ∉ bound ++ NameUse.bound text before) ↔
            (t = s ∧ text s ∉ bound) ∨ t ∈ unboundIn text bound us := by
        rw [ih]
        constructor
        · rintro ⟨before, behind, heq, hnot⟩
          cases before with
          | nil =>
            obtain ⟨hts, rfl⟩ := List.cons.inj heq
            obtain rfl := NameUse.refer.inj hts
            exact .inl ⟨rfl, by simpa [NameUse.bound] using hnot⟩
          | cons v before =>
            obtain ⟨rfl, rfl⟩ := List.cons.inj heq
            exact .inr ⟨before, behind, rfl, hnot⟩
        · rintro (⟨rfl, hnot⟩ | ⟨before, behind, rfl, hnot⟩)
          · exact ⟨[], us, rfl, by simpa [NameUse.bound] using hnot⟩
          · exact ⟨.refer s :: before, behind, rfl, hnot⟩
      rw [hrest, unboundIn]
      split
      · rename_i hs
        simp [hs]
      · rename_i hs
        simp [hs]

end Unbound

end Tarjuman
