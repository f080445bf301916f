/-
# How the index walks

The readers of `Tarjuman.Script.Reader` give back the tokens they leave.  Seen from
below, reading is an index that walks along the tokens: a step looks at the token under
the index or at the one behind it and moves on, but never past an end of the input.  What
is to be done next stands on a stack of tasks, so that a step needs no recursion, and
the indices at which statements are entered are kept (`Walk`, `Walk.step`).

The walk follows the readers: from the task of an operand, an argument list or an
expression it gets to the last token that the reader takes, unless reading it never ends,
and then it gets to an argument list that stands on the end of the input with a comma
behind it (`Walk.Trapped`).
-/

import Mathlib.Computability.StateTransition
import Tarjuman.Proofs.Reading
import Tarjuman.Script.Transpile

namespace Tarjuman

open StateTransition

@[simp]
theorem nextKind_nil : nextKind [] = .endOfInput := rfl

@[simp]
theorem nextKind_cons (t : Token) (r : List Token) : nextKind (t :: r) = t.kind := rfl

/-- The kind of the token at an index; behind all tokens the input has ended. -/
def kindAt (ts : List Token) (i : Nat) : Kind := nextKind (ts.drop i)

/-- The index of the next token, except at an end of the input. -/
def advance (ts : List Token) (i : Nat) : Nat :=
  if kindAt ts i = .endOfInput then i else i + 1

/-- Something to be done at the index. -/
inductive Task where
  /-- Read the statement that starts here. -/
  | statement
  /-- Go on behind the last token of a statement. -/
  | leave
  /-- Read a condition. -/
  | condition
  /-- Behind its left side, read the right side if a comparison follows. -/
  | comparison
  /-- Read an expression. -/
  | expr
  /-- Behind its left operand, read the right one if an operator follows. -/
  | operator
  /-- Read an operand. -/
  | operand
  /-- Step onto the next argument and read it. -/
  | argument
  /-- Behind an argument, go on with another one if a comma follows. -/
  | nextArgument
  /-- Step onto the closing parenthesis. -/
  | close
  /-- Behind a parameter, go on with another one if a comma follows. -/
  | params
deriving DecidableEq, Repr

/-- A point of the walk. -/
structure Walk where
  index : Nat := 0
  /-- What was read last is whole. -/
  whole : Bool := true
  /-- What is left to be done, the next task first. -/
  todo : List Task := [.statement]
  /-- The indices at which statements were entered, the latest first. -/
  entered : List Nat := []
deriving DecidableEq, Repr

namespace Walk

/-- The tasks behind the opening parenthesis of a call at index `i`. -/
def callTasks (ts : List Token) (i : Nat) : List Task :=
  if kindAt ts (i + 1) = .rparen then [.close] else [.argument]

/-- Where the walk goes first in the statement that starts at index `i`, and what is to be
done from there. -/
def enter (ts : List Token) (i : Nat) : Nat × List Task :=
  match kindAt ts i with
  | .kwVar =>
    let name := advance ts i
    if kindAt ts name ≠ .ident then (name, [])
    else
      let sign := advance ts name
      if kindAt ts sign ≠ .assign then (sign, []) else (advance ts sign, [.expr])
  | .kwPrint =>
    let first := advance ts i
    (first, if (kindAt ts first).startsOperand then [.expr] else [])
  | .kwFun =>
    let name := advance ts i
    if kindAt ts name ≠ .ident then (name, [])
    else
      let paren := advance ts name
      if kindAt ts paren ≠ .lparen then (paren, [])
      else if kindAt ts (paren + 1) = .ident then (advance ts paren, [.params])
      else (paren, [.close])
  | .ident =>
    match kindAt ts (i + 1) with
    | .lparen => (advance ts i, callTasks ts (advance ts i))
    | .assign => (advance ts (advance ts i), [.expr])
    | _ => (i, [])
  | .kwWhile | .kwIf => (advance ts i, [.condition])
  | .kwReturn =>
    if (kindAt ts (i + 1)).startsOperand then (advance ts i, [.expr]) else (i, [])
  | _ => (i, [])

/-- Do a task with `todo` left behind it. -/
def perform (ts : List Token) (w : Walk) (todo : List Task) : Task → Walk
  | .statement =>
    if kindAt ts w.index = .endOfInput then
      { w with todo := [], entered := w.index :: w.entered }
    else
      { w with
        index := (enter ts w.index).1
        todo := (enter ts w.index).2 ++ .leave :: todo
        entered := w.index :: w.entered }
  | .leave => { w with index := advance ts w.index, todo := .statement :: todo }
  | .condition => { w with todo := .expr :: .comparison :: todo }
  | .comparison =>
    if w.whole ∧ (kindAt ts (w.index + 1)).isComparison then
      { w with index := advance ts (advance ts w.index), todo := .expr :: todo }
    else { w with todo }
  | .expr => { w with todo := .operand :: .operator :: todo }
  | .operator =>
    if w.whole ∧ (kindAt ts (w.index + 1)).isArithmetic then
      { w with index := advance ts (advance ts w.index), todo := .operand :: todo }
    else { w with todo }
  | .operand =>
    if kindAt ts w.index = .ident ∧ kindAt ts (w.index + 1) = .lparen then
      { w with
        index := advance ts w.index
        todo := callTasks ts (advance ts w.index) ++ todo }
    else { w with whole := (kindAt ts w.index).startsOperand, todo }
  | .argument =>
    { w with index := advance ts w.index, todo := .expr :: .nextArgument :: todo }
  | .nextArgument =>
    if kindAt ts (w.index + 1) = .comma then
      { w with index := advance ts w.index, todo := .argument :: todo }
    else { w with todo := .close :: todo }
  | .close =>
    { w with
      index := advance ts w.index
      whole := kindAt ts (advance ts w.index) = .rparen
      todo }
  | .params =>
    if kindAt ts (w.index + 1) = .comma then
      let next := advance ts (advance ts w.index)
      { w with index := next, todo := if kindAt ts next = .ident then .params :: todo else todo }
    else { w with todo := .close :: todo }

/-- One step; with nothing left to be done there is none. -/
def step (ts : List Token) (w : Walk) : Option Walk :=
  match w.todo with
  | [] => none
  | task :: todo => some (w.perform ts todo task)

/-- An argument list that stands on the end of the input and sees a comma behind it. -/
def IsTrap (ts : List Token) (w : Walk) : Prop :=
  (∃ todo, w.todo = .nextArgument :: todo) ∧ kindAt ts w.index = .endOfInput ∧
    kindAt ts (w.index + 1) = .comma

/-- The walk gets into a trap. -/
def Trapped (ts : List Token) (w : Walk) : Prop := ∃ w', Reaches (step ts) w w' ∧ w'.IsTrap ts

theorem Trapped.of_reaches {ts : List Token} {w w' : Walk} (h : Reaches (step ts) w w')
    (ht : w'.Trapped ts) : w.Trapped ts := by
  obtain ⟨v, hv, htrap⟩ := ht
  exact ⟨v, h.trans hv, htrap⟩

end Walk

/-- The tokens `body` before the first end of the input, and whether a comma follows that. -/
structure Cut (ts body : List Token) (trap : Bool) : Prop where
  kind_eq : ∀ i ≤ body.length, kindAt ts i = nextKind (body.drop i)
  solid : ∀ t ∈ body, t.kind ≠ .endOfInput
  trap_iff : trap = true ↔ kindAt ts (body.length + 1) = .comma

theorem lt_length_of_drop_eq_cons {α : Type} {l r : List α} {i : Nat} {a : α}
    (h : l.drop i = a :: r) : i < l.length ∧ l.drop (i + 1) = r := by
  constructor
  · by_contra hge
    rw [List.drop_eq_nil_of_le (by omega)] at h
    cases h
  · rw [← List.tail_drop, h]
    rfl

namespace Cut

variable {ts body : List Token} {trap : Bool} (cut : Cut ts body trap)
include cut

theorem kindAt_length : kindAt ts body.length = .endOfInput := by
  rw [cut.kind_eq _ le_rfl, List.drop_length]
  rfl

theorem kindAt_of_drop {i : Nat} {t : Token} {r : List Token} (h : body.drop i = t :: r) :
    kindAt ts i = t.kind := by
  rw [cut.kind_eq i (lt_length_of_drop_eq_cons h).1.le, h]
  rfl

theorem advance_lt {i : Nat} (h : i < body.length) : advance ts i = i + 1 := by
  have hkind : kindAt ts i = body[i].kind := cut.kindAt_of_drop (List.drop_eq_getElem_cons h)
  rw [advance, if_neg]
  rw [hkind]
  exact cut.solid _ (List.getElem_mem h)

theorem advance_length : advance ts body.length = body.length := by
  rw [advance, if_pos cut.kindAt_length]

end Cut

/-- How the walk from `w` comes to the end of its first task, with `todo` left: it gets into
a trap, or it gets to an index behind which `rest` is left.  A reading has failed at the
end of the input exactly if the index stands there. -/
inductive Walk.Ends (ts body : List Token) (w : Walk) (todo : List Task)
    (endless whole failed : Bool) (rest : List Token) : Prop where
  | trapped (never : endless = true) (trap : w.Trapped ts)
  | done {j : Nat} (ends : endless = false) (inside : j ≤ body.length)
      (reaches : Reaches (Walk.step ts) w ⟨j, whole, todo, w.entered⟩)
      (left : rest = body.drop (j + 1)) (failed_iff : failed = true ↔ j = body.length)

theorem Walk.Ends.of_reaches {ts body : List Token} {w w' : Walk} {todo : List Task}
    {endless whole failed : Bool} {rest : List Token} (h : Reaches (Walk.step ts) w w')
    (hentered : w'.entered = w.entered) (hw : w'.Ends ts body todo endless whole failed rest) :
    w.Ends ts body todo endless whole failed rest := by
  cases hw with
  | trapped never trap => exact .trapped never (trap.of_reaches h)
  | done ends inside reaches left failed_iff =>
    rw [hentered] at reaches
    exact .done ends inside (h.trans reaches) left failed_iff

/-- One task after another: where the first comes to its end, the others go on. -/
theorem Walk.Ends.andThen {ts body : List Token} {w : Walk} {todo todo' : List Task}
    {endless endless' whole whole' failed failed' : Bool} {rest rest' : List Token}
    (h : w.Ends ts body todo endless whole failed rest) (hnever : endless = true → endless' = true)
    (hnext : ∀ j ≤ body.length, endless = false → rest = body.drop (j + 1) →
      (failed = true ↔ j = body.length) →
      Walk.Ends ts body ⟨j, whole, todo, w.entered⟩ todo' endless' whole' failed' rest') :
    w.Ends ts body todo' endless' whole' failed' rest' := by
  cases h with
  | trapped never trap => exact .trapped (hnever never) trap
  | done ends inside reaches left failed_iff =>
    exact .of_reaches reaches rfl (hnext _ inside ends left failed_iff)

/-- What does not go on by the tokens that are left does not go on by the tokens at hand: at
the end of the input, where the index stays, only what has failed has come. -/
theorem Cut.stops {ts body rest : List Token} {trap : Bool} (cut : Cut ts body trap)
    {p : Kind → Bool} {whole failed : Bool} {j : Nat} (inside : j ≤ body.length)
    (left : rest = body.drop (j + 1)) (failed_iff : failed = true ↔ j = body.length)
    (hwhole : whole = true → failed = false)
    (stop : whole = false ∨ p (nextKind rest) = false) :
    whole = false ∨ p (kindAt ts (j + 1)) = false := by
  rcases stop with stop | stop
  · exact .inl stop
  · rcases Nat.lt_or_ge j body.length with hlt | hge
    · exact .inr (by rwa [cut.kind_eq (j + 1) hlt, ← left])
    · refine .inl (Bool.eq_false_iff.2 fun h => ?_)
      have hfailed := failed_iff.2 (le_antisymm inside hge)
      rw [hwhole h] at hfailed
      cases hfailed

/-- Where no argument follows the closing parenthesis is expected. -/
theorem Walk.reaches_close {ts : List Token} {j : Nat} (hj : kindAt ts (j + 1) ≠ .comma)
    (whole : Bool) (todo : List Task) (entered : List Nat) :
    Reaches (Walk.step ts) ⟨j, whole, .nextArgument :: todo, entered⟩
      ⟨advance ts j, kindAt ts (advance ts j) = .rparen, todo, entered⟩ := by
  refine .head (b := ⟨j, whole, .close :: todo, entered⟩) ?_ (.single ?_)
  · simp [Walk.step, Walk.perform, hj]
  · simp [Walk.step, Walk.perform]

/-- An operand that is no call is read in place. -/
theorem Walk.reaches_operand {ts : List Token} {i : Nat}
    (h : kindAt ts i = .ident → kindAt ts (i + 1) ≠ .lparen) (whole : Bool) (todo : List Task)
    (entered : List Nat) :
    Reaches (Walk.step ts) ⟨i, whole, .operand :: todo, entered⟩
      ⟨i, (kindAt ts i).startsOperand, todo, entered⟩ := by
  refine .single ?_
  simp only [Walk.step, Walk.perform, Option.mem_def]
  rw [if_neg fun hcall => h hcall.1 hcall.2]

/-- Behind a left operand that is whole an operator leads on to the right one. -/
theorem Walk.reaches_operator {ts : List Token} {j : Nat}
    (h : (kindAt ts (j + 1)).isArithmetic = true) (todo : List Task) (entered : List Nat) :
    Reaches (Walk.step ts) ⟨j, true, .operator :: todo, entered⟩
      ⟨advance ts (advance ts j), true, .operand :: todo, entered⟩ := by
  refine .single ?_
  simp [Walk.step, Walk.perform, h]

/-- Without an operator, or behind a mistake, an expression has one operand. -/
theorem Walk.reaches_single {ts : List Token} {j : Nat} {whole : Bool}
    (h : whole = false ∨ (kindAt ts (j + 1)).isArithmetic = false) (todo : List Task)
    (entered : List Nat) :
    Reaches (Walk.step ts) ⟨j, whole, .operator :: todo, entered⟩ ⟨j, whole, todo, entered⟩ := by
  refine .single ?_
  rcases h with rfl | h <;> simp [Walk.step, Walk.perform, *]

/-- An expression starts with an operand. -/
theorem Walk.reaches_expr {ts : List Token} (i : Nat) (whole : Bool) (todo : List Task)
    (entered : List Nat) :
    Reaches (Walk.step ts) ⟨i, whole, .expr :: todo, entered⟩
      ⟨i, whole, .operand :: .operator :: todo, entered⟩ := .single rfl

/-- What is whole has not failed at the end of the input. -/
theorem Operand.failedAtEnd_of_isWhole {o : Operand} (h : o.isWhole = true) :
    o.failedAtEnd = false := by
  cases o with
  | name | literal => rfl
  | call name args =>
    have hclosed : args.closing = .closed := by simpa [Operand.isWhole] using h
    simp [Operand.failedAtEnd, hclosed]
  | missing => cases h

theorem Expr.failedAtEnd_of_isWhole {e : Expr} (h : e.isWhole = true) :
    e.failedAtEnd = false := by
  cases e with
  | single l => exact Operand.failedAtEnd_of_isWhole h
  | binary l op r =>
    have hright := (Bool.and_eq_true _ _ ▸ h : l.isWhole = true ∧ r.isWhole = true).2
    exact Operand.failedAtEnd_of_isWhole hright

section Walks

variable {ts body : List Token} {trap : Bool} (cut : Cut ts body trap)
include cut

/-- An argument starts behind a parenthesis or a comma. -/
theorem Cut.reaches_argument {i : Nat} (hi : i < body.length) (whole : Bool) (todo : List Task)
    (entered : List Nat) :
    Reaches (Walk.step ts) ⟨i, whole, .argument :: todo, entered⟩
      ⟨i + 1, whole, .expr :: .nextArgument :: todo, entered⟩ :=
  .single (by simp [Walk.step, Walk.perform, cut.advance_lt hi])

theorem Cut.advance_le {j : Nat} (hj : j ≤ body.length) : advance ts j ≤ body.length := by
  rcases Nat.lt_or_ge j body.length with hlt | hge
  · rw [cut.advance_lt hlt]
    exact hlt
  · obtain rfl : j = body.length := le_antisymm hj hge
    rw [cut.advance_length]

/-- At the end nothing is left on either side, though the index stays. -/
theorem Cut.drop_advance {j : Nat} (hj : j ≤ body.length) :
    body.drop (advance ts j) = body.drop (j + 1) := by
  rcases Nat.lt_or_ge j body.length with hlt | hge
  · rw [cut.advance_lt hlt]
  · obtain rfl : j = body.length := le_antisymm hj hge
    rw [cut.advance_length]
    simp

/-- Behind an argument without a comma the parenthesis is expected at the next index. -/
theorem Cut.ends_close {j : Nat} (hj : j ≤ body.length) (closed failed : Bool)
    (hcomma : kindAt ts (j + 1) ≠ .comma)
    (hclosed : closed = decide (kindAt ts (advance ts j) = .rparen))
    (hfailed : failed = true ↔ advance ts j = body.length) (whole : Bool) (todo : List Task)
    (entered : List Nat) :
    Walk.Ends ts body ⟨j, whole, .nextArgument :: todo, entered⟩ todo false closed failed
      (body.drop (advance ts j + 1)) := by
  have hreaches := Walk.reaches_close hcomma whole todo entered
  rw [← hclosed] at hreaches
  exact .done rfl (cut.advance_le hj) hreaches rfl hfailed

/-- A token that is no comma stands in the place of the parenthesis. -/
theorem Cut.ends_at_token {j : Nat} {c : Token} {r : List Token} (hj : j ≤ body.length)
    (left : c :: r = body.drop (j + 1)) (comma : c.kind ≠ .comma) (whole : Bool)
    (todo : List Task) (entered : List Nat) :
    Walk.Ends ts body ⟨j, whole, .nextArgument :: todo, entered⟩ todo false
      (c.kind = .rparen) false r := by
  obtain ⟨hlt, rfl⟩ := lt_length_of_drop_eq_cons left.symm
  have hkind := cut.kindAt_of_drop left.symm
  have hadvance := cut.advance_lt (Nat.lt_of_succ_lt hlt)
  have hfailed : false = true ↔ advance ts j = body.length := by
    rw [hadvance]
    exact iff_of_false Bool.false_ne_true hlt.ne
  have hclose := cut.ends_close hj (c.kind = .rparen) false (by rwa [hkind])
    (by rw [hadvance, hkind]) hfailed whole todo entered
  rwa [hadvance] at hclose

/-- With no token left the parenthesis is expected at the end of the input. -/
theorem Cut.ends_at_end {j : Nat} (hj : j ≤ body.length) (hlast : body.length ≤ j + 1)
    (hcomma : kindAt ts (j + 1) ≠ .comma) (whole : Bool) (todo : List Task)
    (entered : List Nat) :
    Walk.Ends ts body ⟨j, whole, .nextArgument :: todo, entered⟩ todo false false true [] := by
  have hadvance : advance ts j = body.length := by
    rcases Nat.lt_or_ge j body.length with hlt | hge
    · rw [cut.advance_lt hlt]
      omega
    · rw [le_antisymm hj hge, cut.advance_length]
  have hclose := cut.ends_close hj false true hcomma (by rw [hadvance, cut.kindAt_length]; rfl)
    (by simp [hadvance]) whole todo entered
  rwa [hadvance, List.drop_of_length_le (Nat.le_succ _)] at hclose

mutual
theorem ReadsOperand.walks {ts₀ rest : List Token} {o : Operand} :
    ReadsOperand trap ts₀ o rest → ∀ {i : Nat}, i ≤ body.length → ts₀ = body.drop i →
      ∀ (whole : Bool) (todo : List Task) (entered : List Nat),
        Walk.Ends ts body ⟨i, whole, .operand :: todo, entered⟩ todo
          o.isEndless o.isWhole o.failedAtEnd rest
  | .nothing, i, hi, hts, whole, todo, entered => by
    obtain rfl : i = body.length := by
      have := List.drop_eq_nil_iff.1 hts.symm
      omega
    have hkind := cut.kindAt_length
    have hcall : kindAt ts body.length = .ident → kindAt ts (body.length + 1) ≠ .lparen := by
      simp [hkind]
    have hstep := Walk.reaches_operand hcall whole todo entered
    rw [hkind] at hstep
    exact .done rfl le_rfl hstep (by simp) (iff_of_true rfl rfl)
  | .name kind next, i, hi, hts, whole, todo, entered => by
    have hkind := cut.kindAt_of_drop hts.symm
    obtain ⟨hlt, hrest⟩ := lt_length_of_drop_eq_cons hts.symm
    have hnext : kindAt ts (i + 1) ≠ .lparen := by
      rwa [cut.kind_eq (i + 1) hlt, hrest]
    have hstep := Walk.reaches_operand (fun _ => hnext) whole todo entered
    rw [hkind, kind] at hstep
    exact .done rfl hi hstep hrest.symm (iff_of_false Bool.false_ne_true hlt.ne)
  | .call kind paren inner, i, hi, hts, whole, todo, entered => by
    have hkind := cut.kindAt_of_drop hts.symm
    obtain ⟨hlt, hrest⟩ := lt_length_of_drop_eq_cons hts.symm
    have hparen := cut.kindAt_of_drop hrest
    obtain ⟨hlt', hrest'⟩ := lt_length_of_drop_eq_cons hrest
    rw [kind] at hkind
    rw [paren] at hparen
    have hstep : Reaches (Walk.step ts) ⟨i, whole, .operand :: todo, entered⟩
        ⟨i + 1, whole, Walk.callTasks ts (i + 1) ++ todo, entered⟩ :=
      .single (by simp [Walk.step, Walk.perform, hkind, hparen, cut.advance_lt hlt])
    exact .of_reaches hstep rfl (ReadsArguments.walks inner hlt' hrest'.symm whole todo entered)
  | .literal kind starts, i, hi, hts, whole, todo, entered => by
    have hkind := cut.kindAt_of_drop hts.symm
    obtain ⟨hlt, hrest⟩ := lt_length_of_drop_eq_cons hts.symm
    have hstep := Walk.reaches_operand (fun h => absurd (hkind.symm.trans h) kind) whole todo
      entered
    rw [hkind, starts] at hstep
    exact .done rfl hi hstep hrest.symm (iff_of_false Bool.false_ne_true hlt.ne)
  | .missing starts, i, hi, hts, whole, todo, entered => by
    have hkind := cut.kindAt_of_drop hts.symm
    obtain ⟨hlt, hrest⟩ := lt_length_of_drop_eq_cons hts.symm
    have hident : kindAt ts i ≠ .ident := fun h => by
      rw [← hkind, h] at starts
      cases starts
    have hstep := Walk.reaches_operand (fun h => absurd h hident) whole todo entered
    rw [hkind, starts] at hstep
    exact .done rfl hi hstep hrest.symm (iff_of_false Bool.false_ne_true hlt.ne)

theorem ReadsArguments.walks {ts₀ rest : List Token} {args : Arguments} :
    ReadsArguments trap ts₀ args rest → ∀ {i : Nat}, i < body.length → ts₀ = body.drop (i + 1) →
      ∀ (whole : Bool) (todo : List Task) (entered : List Nat),
        Walk.Ends ts body ⟨i, whole, Walk.callTasks ts i ++ todo, entered⟩ todo
          args.isEndless (args.closing = .closed) (args.closing = .missing none) rest
  | .none close, i, hi, hts, whole, todo, entered => by
    have hkind := cut.kindAt_of_drop hts.symm
    obtain ⟨hlt, hrest⟩ := lt_length_of_drop_eq_cons hts.symm
    rw [close] at hkind
    refine .done rfl hlt.le (.single ?_) hrest.symm (iff_of_false Bool.false_ne_true hlt.ne)
    simp [Walk.step, Walk.perform, Walk.callTasks, hkind, cut.advance_lt hi, Arguments.closing]
  | .some next inner, i, hi, hts, whole, todo, entered => by
    have hkind : kindAt ts (i + 1) ≠ .rparen := by
      rwa [cut.kind_eq (i + 1) hi, ← hts]
    rw [Walk.callTasks, if_neg hkind]
    exact ReadsArgument.walks inner hi hts whole todo entered

theorem ReadsArgument.walks {ts₀ rest : List Token} {args : Arguments} :
    ReadsArgument trap ts₀ args rest → ∀ {i : Nat}, i < body.length → ts₀ = body.drop (i + 1) →
      ∀ (whole : Bool) (todo : List Task) (entered : List Nat),
        Walk.Ends ts body ⟨i, whole, .argument :: todo, entered⟩ todo
          args.isEndless (args.closing = .closed) (args.closing = .missing none) rest
  | .atEnd (e := e) first, i, hi, hts, whole, todo, entered => by
    refine .of_reaches (cut.reaches_argument hi whole todo entered) rfl ?_
    refine (ReadsExpr.walks first hi hts whole (.nextArgument :: todo) entered).andThen
      (fun never => by rw [Arguments.isEndless, never]; rfl) fun j inside ends left failed_iff => ?_
    have hlast : body.length ≤ j + 1 := List.drop_eq_nil_iff.1 left.symm
    have hend := cut.kindAt_length
    rw [Arguments.isEndless, ends]
    rcases Nat.lt_or_ge j body.length with hlt | hge
    · -- The argument ends with the last token: the index steps onto the end.
      have hj : j + 1 = body.length := by omega
      have hfailed : e.failedAtEnd = false := Bool.eq_false_iff.2 fun h => by
        have := failed_iff.1 h
        omega
      rw [hfailed, Bool.and_false]
      exact cut.ends_at_end inside hlast (by simp [hj, hend]) e.isWhole todo entered
    · -- The argument has failed at the end: a comma behind it is a trap.
      obtain rfl : j = body.length := by omega
      rw [failed_iff.2 rfl, Bool.and_true]
      cases htrap : trap with
      | true => exact .trapped rfl ⟨_, .refl, ⟨_, rfl⟩, hend, cut.trap_iff.1 htrap⟩
      | false =>
        have hcomma : kindAt ts (body.length + 1) ≠ .comma := fun h => by
          rw [cut.trap_iff.2 h] at htrap
          cases htrap
        exact cut.ends_at_end inside hlast hcomma e.isWhole todo entered
  | .next (e := e) first comma more, i, hi, hts, whole, todo, entered => by
    refine .of_reaches (cut.reaches_argument hi whole todo entered) rfl ?_
    refine (ReadsExpr.walks first hi hts whole (.nextArgument :: todo) entered).andThen
      (fun never => by rw [Arguments.isEndless, never]; rfl) fun j inside ends left _ => ?_
    obtain ⟨hlt, hrest⟩ := lt_length_of_drop_eq_cons left.symm
    have hkind := cut.kindAt_of_drop left.symm
    rw [comma] at hkind
    have hstep : Reaches (Walk.step ts) ⟨j, e.isWhole, .nextArgument :: todo, entered⟩
        ⟨j + 1, e.isWhole, .argument :: todo, entered⟩ :=
      .single (by simp [Walk.step, Walk.perform, hkind, cut.advance_lt (Nat.lt_of_succ_lt hlt)])
    rw [Arguments.isEndless, ends]
    exact .of_reaches hstep rfl (ReadsArgument.walks more hlt hrest.symm e.isWhole todo entered)
  | .last (e := e) first close, i, hi, hts, whole, todo, entered => by
    refine .of_reaches (cut.reaches_argument hi whole todo entered) rfl ?_
    refine (ReadsExpr.walks first hi hts whole (.nextArgument :: todo) entered).andThen
      (fun never => by rw [Arguments.isEndless, never]; rfl) fun j inside ends left _ => ?_
    have hclose := cut.ends_at_token inside left (by simp [close]) e.isWhole todo entered
    rw [decide_eq_true close] at hclose
    rw [Arguments.isEndless, ends]
    exact hclose
  | .other (e := e) first comma close, i, hi, hts, whole, todo, entered => by
    refine .of_reaches (cut.reaches_argument hi whole todo entered) rfl ?_
    refine (ReadsExpr.walks first hi hts whole (.nextArgument :: todo) entered).andThen
      (fun never => by rw [Arguments.isEndless, never]; rfl) fun j inside ends left _ => ?_
    have hclose := cut.ends_at_token inside left comma e.isWhole todo entered
    rw [decide_eq_false close] at hclose
    rw [Arguments.isEndless, ends]
    exact hclose

theorem ReadsExpr.walks {ts₀ rest : List Token} {e : Expr} :
    ReadsExpr trap ts₀ e rest → ∀ {i : Nat}, i ≤ body.length → ts₀ = body.drop i →
      ∀ (whole : Bool) (todo : List Task) (entered : List Nat),
        Walk.Ends ts body ⟨i, whole, .expr :: todo, entered⟩ todo
          e.isEndless e.isWhole e.failedAtEnd rest
  | .single (l := l) left stop, i, hi, hts, whole, todo, entered => by
    refine .of_reaches (Walk.reaches_expr i whole todo entered) rfl ?_
    refine (ReadsOperand.walks left hi hts whole (.operator :: todo) entered).andThen
      (fun never => never) fun j inside ends hleft failed_iff => ?_
    have hstop := cut.stops (p := Kind.isArithmetic) inside hleft failed_iff
      Operand.failedAtEnd_of_isWhole stop
    exact .done ends inside (Walk.reaches_single hstop todo entered) hleft failed_iff
  | .binary left hwhole kind second, i, hi, hts, whole, todo, entered => by
    refine .of_reaches (Walk.reaches_expr i whole todo entered) rfl ?_
    refine (ReadsOperand.walks left hi hts whole (.operator :: todo) entered).andThen
      (fun never => by rw [Expr.isEndless, never]; rfl) fun j inside ends hleft _ => ?_
    obtain ⟨hlt, hrest⟩ := lt_length_of_drop_eq_cons hleft.symm
    have hkind := cut.kindAt_of_drop hleft.symm
    have hstep := Walk.reaches_operator (hkind ▸ kind) todo entered
    rw [cut.advance_lt (Nat.lt_of_succ_lt hlt), cut.advance_lt hlt] at hstep
    rw [Expr.isEndless, ends, Expr.isWhole, hwhole]
    exact .of_reaches hstep rfl (ReadsOperand.walks second hlt hrest.symm true todo entered)
end

end Walks
end Tarjuman
