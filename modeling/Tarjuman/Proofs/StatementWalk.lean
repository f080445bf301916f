/-
# How the index walks along the statements

One statement after another: from the index at which a statement is entered the walk
gets to the one behind the statement's last token, whichever way the statement is read
and wherever it breaks off (`Cut.walks_statement`).  So the indices at which statements
are entered are the places of the statements that `readStatements` reads, and the walk
comes to its end unless reading one of them never ends (`Cut.walks_statements`).
-/

import Mathlib.Data.List.TakeWhile
import Tarjuman.Proofs.IndexWalk

namespace Tarjuman

open StateTransition

/-- A token that is not of the kind it should be, or the end, is passed over. -/
theorem nextKind_of_expect_error {kind : Kind} {ts rest : List Token} {fault : Misplaced}
    {le : rest.length ≤ ts.length} (hkind : kind ≠ .endOfInput)
    (h : expect kind ts = ⟨.error fault, rest, le⟩) : nextKind ts ≠ kind ∧ rest = ts.tail := by
  have hvalue := congrArg Reading.value h
  have hrest : (expect kind ts).rest = rest := congrArg Reading.rest h
  cases ts with
  | nil => exact ⟨hkind.symm, hrest.symm⟩
  | cons t r =>
    refine ⟨fun hnext => ?_, hrest.symm⟩
    have hk : t.kind = kind := hnext
    simp only [expect, if_pos hk, reduceCtorEq] at hvalue

/-- The walk from `w` comes to the end of its tasks, with `todo` left: it gets into a trap,
or it gets to an index behind which `rest` is left. -/
def Walk.Leaves (ts body : List Token) (w : Walk) (todo : List Task) (endless : Bool)
    (rest : List Token) : Prop :=
  ∃ whole failed, Walk.Ends ts body w todo endless whole failed rest

theorem Walk.Ends.leaves {ts body : List Token} {w : Walk} {todo : List Task}
    {endless whole failed : Bool} {rest : List Token}
    (h : Walk.Ends ts body w todo endless whole failed rest) :
    Walk.Leaves ts body w todo endless rest := ⟨whole, failed, h⟩

/-- With nothing to be done the walk stays where it is. -/
theorem Walk.leaves_here {ts body rest : List Token} {j : Nat} (hj : j ≤ body.length)
    (hrest : body.drop (j + 1) = rest) (whole : Bool) (todo : List Task) (entered : List Nat) :
    Walk.Leaves ts body ⟨j, whole, todo, entered⟩ todo false rest :=
  ⟨whole, decide (j = body.length), .done rfl hj .refl hrest.symm decide_eq_true_iff⟩

theorem Walk.Leaves.of_reaches {ts body : List Token} {w w' : Walk} {todo : List Task}
    {endless : Bool} {rest : List Token} (h : Reaches (Walk.step ts) w w')
    (hentered : w'.entered = w.entered) (hw : w'.Leaves ts body todo endless rest) :
    w.Leaves ts body todo endless rest := by
  obtain ⟨whole, failed, hends⟩ := hw
  exact ⟨whole, failed, .of_reaches h hentered hends⟩

/-- One task after another, with what they leave. -/
theorem Walk.Ends.andLeaves {ts body : List Token} {w : Walk} {todo todo' : List Task}
    {endless endless' whole failed : Bool} {rest rest' : List Token}
    (h : w.Ends ts body todo endless whole failed rest) (hnever : endless = true → endless' = true)
    (hnext : ∀ j ≤ body.length, endless = false → rest = body.drop (j + 1) →
      (failed = true ↔ j = body.length) →
      Walk.Leaves ts body ⟨j, whole, todo, w.entered⟩ todo' endless' rest') :
    w.Leaves ts body todo' endless' rest' := by
  cases h with
  | trapped never trap => exact ⟨whole, failed, .trapped (hnever never) trap⟩
  | done ends inside reaches left failed_iff =>
    exact .of_reaches reaches rfl (hnext _ inside ends left failed_iff)

theorem rest_expect (kind : Kind) (ts : List Token) : (expect kind ts).rest = ts.tail := by
  cases ts <;> rfl

/-- What is left behind the parameters and, if none of them is misplaced, the parenthesis
that closes them. -/
def behindParams {r : List Token} (m : Reading (List Token × Option Misplaced) r) : List Token :=
  if m.value.2.isSome then m.rest else m.rest.tail

/-- Where the walk goes on from the opening parenthesis of a function's head. -/
def headTasks (ts : List Token) (i : Nat) : Nat × List Task :=
  if kindAt ts (i + 1) = .ident then (i + 1, [.params]) else (i, [.close])

/-- The walk that enters a statement at index `i` leaves what its reader leaves. -/
def Walk.Enters (ts body : List Token) (i : Nat) {r : List Token} (s : Reading Statement r) :
    Prop :=
  ∀ (whole : Bool) (todo : List Task) (entered : List Nat),
    Walk.Leaves ts body ⟨(Walk.enter ts i).1, whole, (Walk.enter ts i).2 ++ todo, entered⟩ todo
      s.value.isEndless s.rest

theorem Walk.Enters.of_eq {ts body : List Token} {i j : Nat} {tasks : List Task} {r : List Token}
    {s : Reading Statement r} (henter : Walk.enter ts i = (j, tasks))
    (h : ∀ (whole : Bool) (todo : List Task) (entered : List Nat), Walk.Leaves ts body
      ⟨j, whole, tasks ++ todo, entered⟩ todo s.value.isEndless s.rest) :
    Walk.Enters ts body i s := by
  intro whole todo entered
  rw [henter]
  exact h whole todo entered

/-- A statement of one token: the walk stays where it has entered. -/
theorem Walk.Enters.stay {ts body : List Token} {i : Nat} {r : List Token}
    {s : Reading Statement r} (henter : Walk.enter ts i = (i, [])) (hi : i ≤ body.length)
    (hrest : body.drop (i + 1) = s.rest) (hends : s.value.isEndless = false) :
    Walk.Enters ts body i s := by
  refine .of_eq henter ?_
  rw [hends]
  exact Walk.leaves_here hi hrest

/-- The indices at which statements start that stand one behind the other from `i` on. -/
def Placed.starts : Nat → List Placed → List Nat
  | _, [] => []
  | i, p :: ps => i :: starts (i + p.tokens.length) ps

section Statements

variable {ts body : List Token} {trap : Bool} (cut : Cut ts body trap)
include cut

theorem ReadsCondition.walks {ts₀ rest : List Token} {c : Condition}
    (h : ReadsCondition trap ts₀ c rest) {i : Nat} (hi : i ≤ body.length)
    (hts : ts₀ = body.drop i) (whole : Bool) (todo : List Task) (entered : List Nat) :
    Walk.Leaves ts body ⟨i, whole, .condition :: todo, entered⟩ todo c.isEndless rest := by
  have hstart : Reaches (Walk.step ts) ⟨i, whole, .condition :: todo, entered⟩
      ⟨i, whole, .expr :: .comparison :: todo, entered⟩ := .single rfl
  refine .of_reaches hstart rfl ?_
  cases h with
  | plain left stop =>
    rename_i l
    refine (ReadsExpr.walks cut left hi hts whole (.comparison :: todo) entered).andLeaves
      (fun never => never) fun j inside ends hleft failed_iff => ?_
    have hstop := cut.stops (p := Kind.isComparison) inside hleft failed_iff
      Expr.failedAtEnd_of_isWhole stop
    have hstep : Reaches (Walk.step ts) ⟨j, l.isWhole, .comparison :: todo, entered⟩
        ⟨j, l.isWhole, todo, entered⟩ :=
      .single (by rcases hstop with hstop | hstop <;> simp [Walk.step, Walk.perform, hstop])
    rw [Condition.isEndless, ends]
    exact .of_reaches hstep rfl (Walk.leaves_here inside hleft.symm _ todo entered)
  | compare left hwhole kind second =>
    refine (ReadsExpr.walks cut left hi hts whole (.comparison :: todo) entered).andLeaves
      (fun never => by rw [Condition.isEndless, never]; rfl) fun j inside ends hleft _ => ?_
    obtain ⟨hlt, hrest⟩ := lt_length_of_drop_eq_cons hleft.symm
    have hkind := cut.kindAt_of_drop hleft.symm
    have hadvance : advance ts (advance ts j) = j + 2 := by
      rw [cut.advance_lt (Nat.lt_of_succ_lt hlt), cut.advance_lt hlt]
    have hstep : Reaches (Walk.step ts) ⟨j, true, .comparison :: todo, entered⟩
        ⟨j + 2, true, .expr :: todo, entered⟩ :=
      .single (by simp [Walk.step, Walk.perform, hkind, kind, hadvance])
    rw [Condition.isEndless, ends, hwhole]
    exact .of_reaches hstep rfl (ReadsExpr.walks cut second hlt hrest.symm true todo entered).leaves

/-- The token under the index, and the one behind it. -/
theorem Cut.next {i : Nat} {t : Token} {r : List Token} (h : body.drop i = t :: r) :
    i < body.length ∧ advance ts i = i + 1 ∧ body.drop (i + 1) = r ∧
      kindAt ts (i + 1) = nextKind r := by
  obtain ⟨hlt, hrest⟩ := lt_length_of_drop_eq_cons h
  refine ⟨hlt, cut.advance_lt hlt, hrest, ?_⟩
  rw [cut.kind_eq (i + 1) hlt, hrest]

/-- A statement breaks off at the token that should be another. -/
theorem Cut.leaves_fault {i : Nat} {t : Token} {r rest : List Token} {kind : Kind}
    {fault : Misplaced} {le : rest.length ≤ r.length} (h : body.drop i = t :: r)
    (hkind : kind ≠ .endOfInput) (hexpect : expect kind r = ⟨.error fault, rest, le⟩)
    (whole : Bool) (todo : List Task) (entered : List Nat) :
    Walk.Leaves ts body ⟨i + 1, whole, todo, entered⟩ todo false rest := by
  obtain ⟨hlt, -, rfl, -⟩ := cut.next h
  obtain ⟨-, rfl⟩ := nextKind_of_expect_error hkind hexpect
  exact Walk.leaves_here hlt List.tail_drop.symm whole todo entered

theorem Cut.enters_variable {i : Nat} {t : Token} {r : List Token} (h : body.drop i = t :: r)
    (hkind : t.kind = .kwVar) : Walk.Enters ts body i (readVariable trap r) := by
  have hvar := (cut.kindAt_of_drop h).trans hkind
  obtain ⟨-, hname, hr, hnext⟩ := cut.next h
  rw [readVariable]
  split
  · rename_i heq
    have hne := (nextKind_of_expect_error (by decide) heq).1
    have henter : Walk.enter ts i = (i + 1, []) := by simp [Walk.enter, hvar, hname, hnext, hne]
    exact .of_eq henter (cut.leaves_fault h (by decide) heq)
  · rename_i name r₁ le₁ heq₁
    obtain ⟨rfl, hk₁⟩ := expect_ok heq₁
    obtain ⟨-, hsign, hr₁, hnext₁⟩ := cut.next hr
    replace hnext : kindAt ts (i + 1) = .ident := hnext.trans hk₁
    split
    · rename_i heq
      have hne := (nextKind_of_expect_error (by decide) heq).1
      have henter : Walk.enter ts i = (i + 2, []) := by
        simp [Walk.enter, hvar, hname, hnext, hsign, hnext₁, hne]
      exact .of_eq henter (cut.leaves_fault hr (by decide) heq)
    · rename_i r₂ le₂ heq₂
      obtain ⟨rfl, hk₂⟩ := expect_ok heq₂
      obtain ⟨hlt, hvalue, hr₂, -⟩ := cut.next hr₁
      replace hnext₁ : kindAt ts (i + 2) = .assign := hnext₁.trans hk₂
      have henter : Walk.enter ts i = (i + 3, [.expr]) := by
        simp [Walk.enter, hvar, hname, hnext, hsign, hnext₁, hvalue]
      exact .of_eq henter fun whole todo entered =>
        ((readsExpr trap r₂).walks cut hlt hr₂.symm whole todo entered).leaves

/-- Behind the parameters the closing parenthesis is expected at the next index. -/
theorem Cut.leaves_paren {i : Nat} {t : Token} {r : List Token} (h : body.drop i = t :: r)
    (whole : Bool) (todo : List Task) (entered : List Nat) :
    Walk.Leaves ts body ⟨i, whole, .close :: todo, entered⟩ todo false r.tail := by
  obtain ⟨hlt, hadvance, rfl, -⟩ := cut.next h
  have hstep : Reaches (Walk.step ts) ⟨i, whole, .close :: todo, entered⟩
      ⟨i + 1, kindAt ts (i + 1) = .rparen, todo, entered⟩ :=
    .single (by simp [Walk.step, Walk.perform, hadvance])
  exact .of_reaches hstep rfl (Walk.leaves_here hlt List.tail_drop.symm _ todo entered)

/-- From a parameter the walk gets to the last token of the parameter list. -/
theorem Cut.leaves_params {r : List Token} {i : Nat} {t : Token} (h : body.drop i = t :: r)
    (whole : Bool) (todo : List Task) (entered : List Nat) :
    Walk.Leaves ts body ⟨i, whole, .params :: todo, entered⟩ todo false
      (behindParams (readMoreParams r)) := by
  -- The induction follows the recursion over the parameters: each takes a comma and a name.
  fun_induction readMoreParams r generalizing i t with
  | case1 =>
    obtain ⟨-, -, -, hnext⟩ := cut.next h
    have hstep : Reaches (Walk.step ts) ⟨i, whole, .params :: todo, entered⟩
        ⟨i, whole, .close :: todo, entered⟩ :=
      .single (by simp [Walk.step, Walk.perform, hnext])
    exact .of_reaches hstep rfl (cut.leaves_paren h whole todo entered)
  | case2 c r hcomma fault rest le heq =>
    obtain ⟨-, hadvance, hr, hnext⟩ := cut.next h
    obtain ⟨-, hadvance', hr', hnext'⟩ := cut.next hr
    have hne := (nextKind_of_expect_error (by decide) heq).1
    have hstep : Reaches (Walk.step ts) ⟨i, whole, .params :: todo, entered⟩
        ⟨i + 2, whole, todo, entered⟩ :=
      .single (by
        simp [Walk.step, Walk.perform, hnext, hcomma, hadvance, hadvance', hnext', hne])
    exact .of_reaches hstep rfl (cut.leaves_fault hr (by decide) heq whole todo entered)
  | case3 c r hcomma p rest le heq more =>
    rename_i ih
    obtain ⟨rfl, hk⟩ := expect_ok heq
    obtain ⟨-, hadvance, hr, hnext⟩ := cut.next h
    obtain ⟨-, hadvance', hr', hnext'⟩ := cut.next hr
    have hstep : Reaches (Walk.step ts) ⟨i, whole, .params :: todo, entered⟩
        ⟨i + 2, whole, .params :: todo, entered⟩ :=
      .single (by
        simp [Walk.step, Walk.perform, hnext, hcomma, hadvance, hadvance', hnext', hk])
    exact .of_reaches hstep rfl (ih hr')
  | case4 c r hcomma =>
    obtain ⟨-, -, -, hnext⟩ := cut.next h
    have hstep : Reaches (Walk.step ts) ⟨i, whole, .params :: todo, entered⟩
        ⟨i, whole, .close :: todo, entered⟩ :=
      .single (by simp [Walk.step, Walk.perform, hnext, hcomma])
    exact .of_reaches hstep rfl (cut.leaves_paren h whole todo entered)

/-- From the opening parenthesis of a function's head the walk gets to the last token of the
head. -/
theorem Cut.leaves_head {i : Nat} {t : Token} {r : List Token} (h : body.drop i = t :: r)
    (whole : Bool) (todo : List Task) (entered : List Nat) :
    Walk.Leaves ts body
      ⟨(headTasks ts i).1, whole, (headTasks ts i).2 ++ todo, entered⟩ todo false
      (behindParams (readParams r)) := by
  obtain ⟨-, -, hr, hnext⟩ := cut.next h
  cases r with
  | nil =>
    rw [headTasks, hnext, if_neg (by simp)]
    exact cut.leaves_paren h whole todo entered
  | cons p r =>
    rw [headTasks, hnext, nextKind_cons, readParams]
    split
    · exact cut.leaves_params hr whole todo entered
    · exact cut.leaves_paren h whole todo entered

theorem Cut.enters_function {i : Nat} {t : Token} {r : List Token} (h : body.drop i = t :: r)
    (hkind : t.kind = .kwFun) : Walk.Enters ts body i (readFunction t r) := by
  have hfun := (cut.kindAt_of_drop h).trans hkind
  obtain ⟨-, hname, hr, hnext⟩ := cut.next h
  rw [readFunction]
  split
  · rename_i heq
    have hne := (nextKind_of_expect_error (by decide) heq).1
    have henter : Walk.enter ts i = (i + 1, []) := by simp [Walk.enter, hfun, hname, hnext, hne]
    exact .of_eq henter (cut.leaves_fault h (by decide) heq)
  · rename_i name r₁ le₁ heq₁
    obtain ⟨rfl, hk₁⟩ := expect_ok heq₁
    obtain ⟨-, hparen, hr₁, hnext₁⟩ := cut.next hr
    replace hnext : kindAt ts (i + 1) = .ident := hnext.trans hk₁
    split
    · rename_i heq
      have hne := (nextKind_of_expect_error (by decide) heq).1
      have henter : Walk.enter ts i = (i + 2, []) := by
        simp [Walk.enter, hfun, hname, hnext, hparen, hnext₁, hne]
      exact .of_eq henter (cut.leaves_fault hr (by decide) heq)
    · rename_i r₂ le₂ heq₂
      obtain ⟨rfl, hk₂⟩ := expect_ok heq₂
      obtain ⟨-, hfirst, -, -⟩ := cut.next hr₁
      replace hnext₁ : kindAt ts (i + 2) = .lparen := hnext₁.trans hk₂
      have henter : Walk.enter ts i = headTasks ts (i + 2) := by
        simp [Walk.enter, hfun, hname, hnext, hparen, hnext₁, hfirst, headTasks]
      have hhead := cut.leaves_head hr₁
      split
      · rename_i heq
        rw [heq] at hhead
        exact .of_eq henter hhead
      · rename_i params r₃ le₃ heq₃
        rw [heq₃] at hhead
        have hrest := rest_expect .rparen r₃
        split
        · rename_i heq
          rw [heq] at hrest
          exact .of_eq henter (hrest ▸ hhead)
        · rename_i heq
          rw [heq] at hrest
          exact .of_eq henter (hrest ▸ hhead)

theorem Cut.enters_callOrAssign {i : Nat} {t : Token} {r : List Token} (h : body.drop i = t :: r)
    (hkind : t.kind = .ident) : Walk.Enters ts body i (readCallOrAssign trap t r) := by
  have hident := (cut.kindAt_of_drop h).trans hkind
  obtain ⟨hlt, hadvance, hr, hnext⟩ := cut.next h
  cases r with
  | nil =>
    have henter : Walk.enter ts i = (i, []) := by simp [Walk.enter, hident, hnext]
    exact .of_eq henter (Walk.leaves_here hlt.le hr)
  | cons u r =>
    obtain ⟨hlt₁, hadvance₁, hr₁, hnext₁⟩ := cut.next hr
    rw [nextKind_cons] at hnext
    rw [readCallOrAssign]
    split
    · rename_i hparen
      have henter : Walk.enter ts i = (i + 1, Walk.callTasks ts (i + 1)) := by
        simp [Walk.enter, hident, hnext, hparen, hadvance]
      exact .of_eq henter fun whole todo entered =>
        ((readsArguments trap r).walks cut hlt₁ hr₁.symm whole todo entered).leaves
    · rename_i hparen
      split
      · rename_i hassign
        have henter : Walk.enter ts i = (i + 2, [.expr]) := by
          simp [Walk.enter, hident, hnext, hassign, hadvance, hadvance₁]
        exact .of_eq henter fun whole todo entered =>
          ((readsExpr trap r).walks cut hlt₁ hr₁.symm whole todo entered).leaves
      · rename_i hassign
        have henter : Walk.enter ts i = (i, []) := by
          simp [Walk.enter, hident, hnext]
        exact .of_eq henter (Walk.leaves_here hlt.le hr)

theorem Cut.enters_print {i : Nat} {t : Token} {r : List Token} (h : body.drop i = t :: r)
    (hkind : t.kind = .kwPrint) : Walk.Enters ts body i (readPrint trap r) := by
  have hprint := (cut.kindAt_of_drop h).trans hkind
  obtain ⟨hlt, hadvance, hr, hnext⟩ := cut.next h
  rw [readPrint]
  split
  · rename_i hstarts
    have henter : Walk.enter ts i = (i + 1, [.expr]) := by
      simp [Walk.enter, hprint, hadvance, hnext, hstarts]
    exact .of_eq henter fun whole todo entered =>
      ((readsExpr trap r).walks cut hlt hr.symm whole todo entered).leaves
  · rename_i hstarts
    have henter : Walk.enter ts i = (i + 1, []) := by
      simp [Walk.enter, hprint, hadvance, hnext, hstarts]
    have hrest : body.drop (i + 2) = r.tail := by rw [← hr, List.tail_drop]
    exact .of_eq henter (Walk.leaves_here hlt hrest)

/-- From the index at which a statement is entered the walk gets to the statement's last
token, with what was to be done behind it left. -/
theorem Cut.enters_readStatement {i : Nat} {t : Token} {r : List Token}
    (h : body.drop i = t :: r) : Walk.Enters ts body i (readStatement trap t r) := by
  have hkindAt := cut.kindAt_of_drop h
  obtain ⟨hlt, hadvance, hr, hnext⟩ := cut.next h
  have hcondition := (readsCondition trap r).walks cut hlt hr.symm
  rw [readStatement]
  split
  · exact cut.enters_variable h ‹_›
  · exact cut.enters_print h ‹_›
  · exact cut.enters_function h ‹_›
  · exact cut.enters_callOrAssign h ‹_›
  all_goals try rename_i hkind
  · exact .stay (by simp [Walk.enter, hkindAt, hkind]) hlt.le hr rfl
  · exact .stay (by simp [Walk.enter, hkindAt, hkind]) hlt.le hr rfl
  · have henter : Walk.enter ts i = (i + 1, [.condition]) := by
      simp [Walk.enter, hkindAt, hkind, hadvance]
    exact .of_eq henter hcondition
  · have henter : Walk.enter ts i = (i + 1, [.condition]) := by
      simp [Walk.enter, hkindAt, hkind, hadvance]
    exact .of_eq henter hcondition
  · exact .stay (by simp [Walk.enter, hkindAt, hkind]) hlt.le hr rfl
  · split
    · rename_i hstarts
      have henter : Walk.enter ts i = (i + 1, [.expr]) := by
        simp [Walk.enter, hkindAt, hkind, hnext, hstarts, hadvance]
      exact .of_eq henter fun whole todo entered =>
        ((readsExpr trap r).walks cut hlt hr.symm whole todo entered).leaves
    · rename_i hstarts
      exact .stay (by simp [Walk.enter, hkindAt, hkind, hnext, hstarts]) hlt.le hr rfl
  · exact .stay (by simp [Walk.enter, hkindAt, hkind]) hlt.le hr rfl
  · exact .stay (by simp [Walk.enter, hkindAt, hkind]) hlt.le hr rfl
  · exact .stay (by simp [Walk.enter, *]) hlt.le hr rfl

/-- **One statement.**  The walk that enters a statement gets behind its last token, never
past the end of the input, unless reading the statement never ends. -/
theorem Cut.walks_statement {i : Nat} {t : Token} {r : List Token} (h : body.drop i = t :: r)
    (whole : Bool) (entered : List Nat) :
    (readStatement trap t r).value.isEndless = true ∧
        Walk.Trapped ts ⟨i, whole, [.statement], entered⟩ ∨
      (readStatement trap t r).value.isEndless = false ∧
        ∃ j whole', i < j ∧ j ≤ body.length ∧ (readStatement trap t r).rest = body.drop j ∧
          Reaches (Walk.step ts) ⟨i, whole, [.statement], entered⟩
            ⟨j, whole', [.statement], i :: entered⟩ := by
  obtain ⟨hlt, -, hr, -⟩ := cut.next h
  have hsolid : kindAt ts i ≠ .endOfInput := by
    rw [cut.kindAt_of_drop h]
    exact cut.solid t (List.mem_of_mem_drop (h ▸ List.mem_cons_self))
  have henter : Reaches (Walk.step ts) ⟨i, whole, [.statement], entered⟩
      ⟨(Walk.enter ts i).1, whole, (Walk.enter ts i).2 ++ [.leave], i :: entered⟩ :=
    .single (by simp [Walk.step, Walk.perform, hsolid])
  obtain ⟨whole', failed, hends⟩ := cut.enters_readStatement h whole [.leave] (i :: entered)
  cases hends with
  | trapped never trap => exact .inl ⟨never, trap.of_reaches henter⟩
  | @done j ends inside reaches left failed_iff =>
    have hleave : Reaches (Walk.step ts) ⟨j, whole', [.leave], i :: entered⟩
        ⟨advance ts j, whole', [.statement], i :: entered⟩ := .single rfl
    have hadvance := cut.advance_le inside
    have hrest := left.trans (cut.drop_advance inside).symm
    have hlength : (body.drop (advance ts j)).length ≤ (body.drop (i + 1)).length := by
      rw [← hrest, hr]
      exact (readStatement trap t r).le
    simp only [List.length_drop] at hlength
    refine .inr ⟨ends, advance ts j, whole', ?_, hadvance, hrest, ?_⟩
    · omega
    · exact (henter.trans reaches).trans hleave

/-- **All statements.**  The walk enters the statements one behind the other, each where
the one before it ends, up to the end of the input. -/
theorem Cut.walks_statements {ts₀ : List Token} {i : Nat} (hi : i ≤ body.length)
    (hts : ts₀ = body.drop i) (whole : Bool) (entered : List Nat) :
    (readStatements trap ts₀).any (·.statement.isEndless) = true ∧
        Walk.Trapped ts ⟨i, whole, [.statement], entered⟩ ∨
      (readStatements trap ts₀).any (·.statement.isEndless) = false ∧
        ∃ whole', Reaches (Walk.step ts) ⟨i, whole, [.statement], entered⟩
          ⟨body.length, whole', [],
            (Placed.starts i (readStatements trap ts₀)).reverse ++ entered⟩ := by
  fun_induction readStatements trap ts₀ generalizing i whole entered with
  | case1 =>
    obtain rfl : i = body.length := le_antisymm hi (List.drop_eq_nil_iff.1 hts.symm)
    have hfinish : Reaches (Walk.step ts) ⟨body.length, whole, [.statement], entered⟩
        ⟨body.length, whole, [], body.length :: entered⟩ :=
      .single (by simp [Walk.step, Walk.perform, cut.kindAt_length])
    exact .inr ⟨rfl, whole, hfinish⟩
  | case2 t r s =>
    rename_i ih
    rcases cut.walks_statement hts.symm whole entered with ⟨never, htrap⟩ |
      ⟨ends, j, whole', hlt, hj, hrest, hreaches⟩
    · refine .inl ⟨?_, htrap⟩
      rw [List.any_cons, never, Bool.true_or]
    · have hlength : (t :: r).length - s.rest.length = j - i := by
        rw [hrest, hts, List.length_drop, List.length_drop]
        omega
      have hplace : i + ((t :: r).take ((t :: r).length - s.rest.length)).length = j := by
        rw [hlength, List.length_take, hts, List.length_drop]
        omega
      rw [List.any_cons, ends, Bool.false_or, Placed.starts, hplace, List.reverse_cons,
        List.append_assoc]
      rcases ih hj hrest whole' (i :: entered) with ⟨never, htrap⟩ | ⟨ends', whole'', hreaches'⟩
      · exact .inl ⟨never, htrap.of_reaches hreaches⟩
      · exact .inr ⟨ends', whole'', hreaches.trans hreaches'⟩

end Statements

/-- Tokens in front of an end of the input, with what follows that. -/
theorem Cut.of_append {body tail : List Token} {trap : Bool}
    (hbody : ∀ t ∈ body, t.kind ≠ .endOfInput) (htail : nextKind tail = .endOfInput)
    (htrap : trap = true ↔ nextKind tail.tail = .comma) : Cut (body ++ tail) body trap where
  kind_eq i hi := by
    rw [kindAt, List.drop_append_of_le_length hi]
    cases hdrop : body.drop i with
    | nil => exact htail
    | cons t r => rfl
  solid := hbody
  trap_iff := by
    have hdrop : (body ++ tail).drop (body.length + 1) = tail.tail := by
      rw [← List.drop_drop, List.drop_left, List.drop_one]
    rw [htrap, kindAt, hdrop]

theorem TokenList.body_ofList (file : FileId) (ts : List Token) :
    (TokenList.ofList file ts).body = ts.takeWhile (·.kind ≠ .endOfInput) := by
  rw [TokenList.ofList]
  split <;> rfl

theorem nextKind_dropWhile (ts : List Token) :
    nextKind (ts.dropWhile (·.kind ≠ .endOfInput)) = .endOfInput := by
  induction ts with
  | nil => rfl
  | cons t r ih =>
    rw [List.dropWhile_cons]
    split
    · exact ih
    · rename_i hkind
      simpa using hkind

/-- A list of tokens is cut at its first end of the input. -/
theorem TokenList.cut (file : FileId) (ts : List Token) :
    Cut ts (TokenList.ofList file ts).body (TokenList.ofList file ts).trap := by
  have hsplit : ts.takeWhile (·.kind ≠ .endOfInput) ++ ts.dropWhile (·.kind ≠ .endOfInput) = ts :=
    List.takeWhile_append_dropWhile
  have hdrop : ts.drop (ts.takeWhile (·.kind ≠ .endOfInput)).length =
      ts.dropWhile (·.kind ≠ .endOfInput) := by
    nth_rewrite 2 [← hsplit]
    exact List.drop_left
  have htrap : (TokenList.ofList file ts).trap = true ↔
      nextKind (ts.dropWhile (·.kind ≠ .endOfInput)).tail = .comma := by
    rw [← hdrop, TokenList.ofList]
    split
    · rename_i heq
      rw [heq]
      simp
    · rename_i finish after heq
      rw [heq]
      cases after <;> simp
  have hbody : ∀ t ∈ ts.takeWhile (·.kind ≠ .endOfInput), t.kind ≠ .endOfInput := fun t ht => by
    simpa using List.mem_takeWhile_imp ht
  have hcut := Cut.of_append hbody (nextKind_dropWhile ts) htrap
  rw [hsplit] at hcut
  rw [TokenList.body_ofList]
  exact hcut

/-- The walk along a list of tokens either comes to its end, with the places of the
statements as the indices at which it has entered one, or gets into a trap. -/
theorem Walk.ends_or_trapped (file : FileId) (ts : List Token) :
    isEndless file ts = true ∧ Walk.Trapped ts {} ∨
      isEndless file ts = false ∧ ∃ whole, Reaches (Walk.step ts) {}
        ⟨(TokenList.ofList file ts).body.length, whole, [],
          (Placed.starts 0 (TokenList.ofList file ts).statements).reverse⟩ := by
  have h := (TokenList.cut file ts).walks_statements (Nat.zero_le _) List.drop_zero.symm true []
  rw [List.append_nil] at h
  exact h

end Tarjuman
