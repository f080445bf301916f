/-
# The trees that tokens denote

The tokens of an expression denote a tree of `Tarjuman.Proofs.ScriptGrammar`: a name denotes
its Latin spelling, a number the same digits in Western notation, a string itself, a call the
call of the same name with all its arguments in order, and two operands with an operator
between them the formula with this operator.  These are rules about the tokens alone
(`DenotesFormula`), and no tokens denote two trees (`DenotesFormula.eq`, `DenotesTest.eq`),
because a term is delimited by the token behind it (`DenotesTerm.unique`).
-/

import Tarjuman.Proofs.Characters
import Tarjuman.Proofs.ScriptGrammar
import Tarjuman.Script.Reader

namespace Tarjuman
namespace Target

/-- The value of a digit, be it Western or Arabic. -/
def digitValue (c : Char) : Nat :=
  if c.toNat ≤ 0x39 then c.toNat - 0x30
  else if c.toNat ≤ 0x669 then c.toNat - 0x660
  else c.toNat - 0x6F0

/-- The number in the notation of the script: digit for digit, and a point for the comma. -/
def western (cs : List Char) : Text :=
  cs.map fun c => if c = ',' then 0x2E else Text.digit (digitValue c)

/-- The leaf that a token of a content denotes. -/
def Leaf.ofToken? (content : Text) (t : Token) : Option Leaf :=
  match t.kind with
  | .ident => some (.name (Latin.rename (t.text content)))
  | .numberLit => some (.number (western (Utf8.chars (t.text content))))
  | .stringLit => some (.string (t.text content))
  | .kwTrue => some .yes
  | .kwFalse => some .no
  | .kwNil => some .nothing
  | _ => none

mutual
/-- The term that tokens denote. -/
inductive DenotesTerm (content : Text) : List Token → Term → Prop where
  | leaf {t : Token} {l : Leaf} (h : Leaf.ofToken? content t = some l) :
      DenotesTerm content [t] (.leaf l)
  | call {t p c : Token} {ts : List Token} {args : Formulas} (name : t.kind = .ident)
      (opens : p.kind = .lparen) (inner : DenotesFormulas content ts args)
      (closes : c.kind = .rparen) :
      DenotesTerm content (t :: p :: (ts ++ [c])) (.call (Latin.rename (t.text content)) args)
/-- The formula that tokens denote. -/
inductive DenotesFormula (content : Text) : List Token → Formula → Prop where
  | single {ts : List Token} {a : Term} (h : DenotesTerm content ts a) :
      DenotesFormula content ts (.single a)
  | binary {ts us : List Token} {l r : Term} {op : Token} (left : DenotesTerm content ts l)
      (h : op.kind ∈ operators.map (·.1)) (right : DenotesTerm content us r) :
      DenotesFormula content (ts ++ op :: us) (.binary l op.kind r)
/-- The formulas that tokens with commas between them denote. -/
inductive DenotesFormulas (content : Text) : List Token → Formulas → Prop where
  | none : DenotesFormulas content [] .nil
  | one {ts : List Token} {e : Formula} (first : DenotesFormula content ts e) :
      DenotesFormulas content ts (.cons e .nil)
  | more {ts us : List Token} {c : Token} {e f : Formula} {rest : Formulas}
      (first : DenotesFormula content ts e) (comma : c.kind = .comma)
      (next : DenotesFormulas content us (.cons f rest)) :
      DenotesFormulas content (ts ++ c :: us) (.cons e (.cons f rest))
end

/-- The test that tokens denote. -/
inductive DenotesTest (content : Text) : List Token → Test → Prop where
  | plain {ts : List Token} {e : Formula} (h : DenotesFormula content ts e) :
      DenotesTest content ts (.plain e)
  | compare {ts us : List Token} {l r : Formula} {op : Token} (left : DenotesFormula content ts l)
      (h : op.kind ∈ comparisons.map (·.1)) (right : DenotesFormula content us r) :
      DenotesTest content (ts ++ op :: us) (.compare l op.kind r)

/-! ## One tree -/

variable {content : Text}

theorem startsOperand_of_ofToken? {t : Token} {l : Leaf} (h : Leaf.ofToken? content t = some l) :
    t.kind.startsOperand = true := by
  rw [Leaf.ofToken?] at h
  split at h <;> first | (rename_i hkind; rw [hkind]; rfl) | cases h

/-- A term starts with a token that starts an operand. -/
theorem DenotesTerm.starts {ts : List Token} {a : Term} (h : DenotesTerm content ts a) :
    ∃ t r, ts = t :: r ∧ t.kind.startsOperand = true := by
  cases h with
  | leaf h => exact ⟨_, [], rfl, startsOperand_of_ofToken? h⟩
  | call name _ _ _ => exact ⟨_, _, rfl, by rw [name]; rfl⟩

theorem DenotesFormula.starts {ts : List Token} {e : Formula} (h : DenotesFormula content ts e) :
    ∃ t r, ts = t :: r ∧ t.kind ≠ .rparen := by
  have hterm {ts : List Token} {a : Term} (h : DenotesTerm content ts a) :
      ∃ t r, ts = t :: r ∧ t.kind ≠ .rparen := by
    obtain ⟨t, r, hts, hstarts⟩ := h.starts
    refine ⟨t, r, hts, fun hkind => ?_⟩
    rw [hkind] at hstarts
    cases hstarts
  cases h with
  | single h => exact hterm h
  | binary left _ _ =>
    obtain ⟨t, r, rfl, hkind⟩ := hterm left
    exact ⟨t, _, rfl, hkind⟩

theorem DenotesFormulas.starts {ts : List Token} {e : Formula} {rest : Formulas}
    (h : DenotesFormulas content ts (.cons e rest)) : ∃ t r, ts = t :: r ∧ t.kind ≠ .rparen := by
  cases h with
  | one first => exact first.starts
  | more first _ _ =>
    obtain ⟨t, r, rfl, hkind⟩ := first.starts
    exact ⟨t, _, rfl, hkind⟩

/-- The next token is neither a parenthesis that makes a call nor an operator. -/
structure Closed (r : List Token) : Prop where
  call : nextKind r ≠ .lparen
  operator : nextKind r ∉ operators.map (·.1)

theorem closed_of_kind {t : Token} {kind : Kind} (h : t.kind = kind) (hcall : kind ≠ .lparen)
    (hop : kind ∉ operators.map (·.1)) (r : List Token) : Closed (t :: r) := by
  subst h
  exact ⟨hcall, hop⟩

theorem ne_lparen_of_operator {kind : Kind} (h : kind ∈ operators.map (·.1)) :
    kind ≠ .lparen := by
  rintro rfl
  exact absurd h (by decide)

mutual
/-- **A term is delimited by the token behind it.** -/
theorem DenotesTerm.unique {ts ts' r r' : List Token} {a a' : Term} :
    DenotesTerm content ts a → DenotesTerm content ts' a' → ts ++ r = ts' ++ r' →
      nextKind r ≠ .lparen → nextKind r' ≠ .lparen → a = a' ∧ r = r'
  | .leaf h, h', heq, hr, hr' => by
    cases h' with
    | leaf h' =>
      obtain ⟨rfl, hrest⟩ := List.cons.inj heq
      rw [h] at h'
      exact ⟨congrArg _ (Option.some.inj h'), hrest⟩
    | call _ opens _ _ =>
      obtain rfl := (List.cons.inj heq).2
      exact absurd opens hr
  | .call name opens inner closes, h', heq, hr, hr' => by
    cases h' with
    | leaf h' =>
      obtain rfl := (List.cons.inj heq).2.symm
      exact absurd opens hr'
    | call _ _ inner' closes' =>
      simp only [List.cons_append, List.append_assoc] at heq
      obtain ⟨rfl, htail⟩ := List.cons.inj heq
      obtain ⟨rfl, rfl⟩ := inner.unique inner' (List.cons.inj htail).2 closes closes'
      exact ⟨rfl, rfl⟩

theorem DenotesFormula.unique {ts ts' r r' : List Token} {e e' : Formula} :
    DenotesFormula content ts e → DenotesFormula content ts' e' → ts ++ r = ts' ++ r' →
      Closed r → Closed r' → e = e' ∧ r = r'
  | .single h, h', heq, hr, hr' => by
    cases h' with
    | single h' =>
      obtain ⟨rfl, hrest⟩ := h.unique h' heq hr.call hr'.call
      exact ⟨rfl, hrest⟩
    | binary left hop _ =>
      rw [List.append_assoc, List.cons_append] at heq
      obtain ⟨-, rfl⟩ := h.unique left heq hr.call (ne_lparen_of_operator hop)
      exact absurd hop hr.operator
  | .binary left hop right, h', heq, hr, hr' => by
    rw [List.append_assoc, List.cons_append] at heq
    cases h' with
    | single h' =>
      obtain ⟨-, rfl⟩ := left.unique h' heq (ne_lparen_of_operator hop) hr'.call
      exact absurd hop hr'.operator
    | binary left' hop' right' =>
      rw [List.append_assoc, List.cons_append] at heq
      obtain ⟨rfl, hmiddle⟩ := left.unique left' heq (ne_lparen_of_operator hop)
        (ne_lparen_of_operator hop')
      obtain ⟨rfl, hright⟩ := List.cons.inj hmiddle
      obtain ⟨rfl, hrest⟩ := right.unique right' hright hr.call hr'.call
      exact ⟨rfl, hrest⟩

theorem DenotesFormulas.unique {ts ts' r r' : List Token} {c c' : Token} {a a' : Formulas} :
    DenotesFormulas content ts a → DenotesFormulas content ts' a' →
      ts ++ ([c] ++ r) = ts' ++ ([c'] ++ r') → c.kind = .rparen → c'.kind = .rparen →
      a = a' ∧ r = r'
  | .none, h', heq, hc, hc' => by
    cases a' with
    | nil =>
      cases h'
      exact ⟨rfl, (List.cons.inj heq).2⟩
    | cons e rest =>
      obtain ⟨t, u, rfl, hkind⟩ := h'.starts
      exact absurd ((List.cons.inj heq).1 ▸ hc) hkind
  | .one first, h', heq, hc, hc' => by
    have hclosed (r : List Token) : Closed ([c] ++ r) := closed_of_kind hc (by decide) (by decide) r
    cases h' with
    | none =>
      obtain ⟨t, u, rfl, hkind⟩ := first.starts
      exact absurd ((List.cons.inj heq).1.symm ▸ hc') hkind
    | one first' =>
      obtain ⟨rfl, hrest⟩ := first.unique first' heq (hclosed r)
        (closed_of_kind hc' (by decide) (by decide) r')
      exact ⟨rfl, (List.cons.inj hrest).2⟩
    | more first' comma _ =>
      rw [List.append_assoc, List.cons_append] at heq
      obtain ⟨-, hrest⟩ := first.unique first' heq (hclosed r)
        (closed_of_kind comma (by decide) (by decide) _)
      cases hc.symm.trans ((List.cons.inj hrest).1 ▸ comma)
  | .more first comma next, h', heq, hc, hc' => by
    rw [List.append_assoc, List.cons_append] at heq
    have hclosed {r : List Token} := closed_of_kind comma (by decide) (by decide) r
    cases h' with
    | none =>
      obtain ⟨t, u, rfl, hkind⟩ := first.starts
      exact absurd ((List.cons.inj heq).1.symm ▸ hc') hkind
    | one first' =>
      obtain ⟨-, hrest⟩ := first.unique first' heq hclosed
        (closed_of_kind hc' (by decide) (by decide) r')
      cases comma.symm.trans ((List.cons.inj hrest).1 ▸ hc')
    | more first' comma' next' =>
      rw [List.append_assoc, List.cons_append] at heq
      obtain ⟨rfl, hrest⟩ := first.unique first' heq hclosed
        (closed_of_kind comma' (by decide) (by decide) _)
      obtain ⟨hnext, rfl⟩ := next.unique next' (List.cons.inj hrest).2 hc hc'
      exact ⟨by rw [hnext], rfl⟩
end

theorem closed_nil : Closed [] := ⟨by decide, by decide⟩

/-- **Tokens denote one formula at most.** -/
theorem DenotesFormula.eq {ts : List Token} {e e' : Formula} (h : DenotesFormula content ts e)
    (h' : DenotesFormula content ts e') : e = e' :=
  (h.unique h' (Eq.refl (ts ++ [])) closed_nil closed_nil).1

theorem closed_of_comparison {t : Token} (h : t.kind ∈ comparisons.map (·.1)) (r : List Token) :
    Closed (t :: r) := by
  have hall : ∀ kind ∈ comparisons.map (·.1), kind ≠ .lparen ∧ kind ∉ operators.map (·.1) := by
    decide
  exact ⟨(hall _ h).1, (hall _ h).2⟩

/-- A formula does not go on behind a comparison. -/
theorem DenotesFormula.ne_append_comparison {ts us r : List Token} {t : Token} {e e' : Formula}
    (h : DenotesFormula content ts e) (h' : DenotesFormula content us e')
    (ht : t.kind ∈ comparisons.map (·.1)) : ts ≠ us ++ t :: r := by
  intro heq
  rw [← List.append_nil ts] at heq
  obtain ⟨-, hrest⟩ := h.unique h' heq closed_nil (closed_of_comparison ht r)
  cases hrest

/-- **Tokens denote one test at most.** -/
theorem DenotesTest.eq {ts ts' : List Token} {c c' : Test} (h : DenotesTest content ts c)
    (h' : DenotesTest content ts' c') (heq : ts = ts') : c = c' := by
  cases h with
  | plain h =>
    cases h' with
    | plain h' =>
      subst heq
      rw [h.eq h']
    | compare left' hop' _ => exact absurd heq (h.ne_append_comparison left' hop')
  | compare left hop right =>
    cases h' with
    | plain h' => exact absurd heq.symm (h'.ne_append_comparison left hop)
    | compare left' hop' right' =>
      obtain ⟨rfl, hmiddle⟩ := left.unique left' heq (closed_of_comparison hop _)
        (closed_of_comparison hop' _)
      obtain ⟨rfl, rfl⟩ := List.cons.inj hmiddle
      rw [right.eq right']

end Target
end Tarjuman
