/-
# The same script in another file

Reading and writing go by the kinds and texts of tokens and not by their places.  So with
all tokens moved to other places the same statements are read (`readStatements_shift`),
and with tokens in another file the same fragments are written and the same findings
reported, at the same offsets of that file (`transpile_toFile`).  What is read from a
content moves with the number of its file as well (`tokenize_toFile`).
-/

import Tarjuman.Proofs.Shift
import Tarjuman.Script.Transpile

namespace Tarjuman

variable (k : Shift)

@[simp] theorem Token.kind_shift (t : Token) : (t.shift k).kind = t.kind := rfl

/-- The end of an argument list with its place moved. -/
def Closing.shift : Closing → Closing
  | .closed => .closed
  | .missing found => .missing (found.map (Token.shift k))
  | .endless => .endless

mutual
/-- The operand with all places moved. -/
def Operand.shift : Operand → Operand
  | .name t => .name (t.shift k)
  | .literal t => .literal (t.shift k)
  | .call name args => .call (name.shift k) (args.shift)
  | .missing found => .missing (found.map (Token.shift k))
/-- The expression with all places moved. -/
def Expr.shift : Expr → Expr
  | .single l => .single l.shift
  | .binary l op r => .binary l.shift op r.shift
/-- The arguments with all places moved. -/
def Arguments.shift : Arguments → Arguments
  | .done c => .done (c.shift k)
  | .more e rest => .more e.shift rest.shift
end

/-- The condition with all places moved. -/
def Condition.shift : Condition → Condition
  | .plain e => .plain (e.shift k)
  | .compare l op r => .compare (l.shift k) op (r.shift k)

/-- The token that is not of the kind it should be, in its new place. -/
def Misplaced.shift (m : Misplaced) : Misplaced := { m with found := m.found.map (Token.shift k) }

/-- The statement with all places moved. -/
def Statement.shift : Statement → Statement
  | .declare name quoted value => .declare (name.shift k) quoted (value.shift k)
  | .print value => .print (value.shift k)
  | .function keyword name params fault =>
    .function (keyword.shift k) (name.map (Token.shift k)) (params.map (Token.shift k))
      (fault.map (Misplaced.shift k))
  | .call callee => .call (callee.shift k)
  | .assign name value => .assign (name.shift k) (value.shift k)
  | .raw t => .raw (t.shift k)
  | .close keyword => .close (keyword.shift k)
  | .whileLoop keyword c => .whileLoop (keyword.shift k) (c.shift k)
  | .ifBranch keyword c => .ifBranch (keyword.shift k) (c.shift k)
  | .elseBranch keyword => .elseBranch (keyword.shift k)
  | .giveBack value => .giveBack (value.map (Expr.shift k))
  | .forLoop keyword => .forLoop (keyword.shift k)
  | .classHead keyword => .classHead (keyword.shift k)
  | .broken fault => .broken (fault.shift k)
  | .stray t => .stray (t.shift k)
  | .finish => .finish

/-- The statement and its tokens with all places moved. -/
def Placed.shift (p : Placed) : Placed := ⟨p.tokens.map (Token.shift k), p.statement.shift k⟩

/-- What was read, and the tokens that are left, with all places moved. -/
def Reading.shift {α : Type} {ts : List Token} (g : α → α) (r : Reading α ts) :
    Reading α (ts.map (Token.shift k)) :=
  ⟨g r.value, r.rest.map (Token.shift k), by rw [List.length_map, List.length_map]; exact r.le⟩

theorem Reading.shift_mk {α : Type} {ts rest : List Token} (g : α → α) (value : α)
    (le : rest.length ≤ ts.length) :
    (⟨value, rest, le⟩ : Reading α ts).shift k g =
      ⟨g value, rest.map (Token.shift k),
        by rw [List.length_map, List.length_map]; exact le⟩ :=
  rfl

section Readers

theorem Closing.shift_eq_closed_iff {c : Closing} : c.shift k = .closed ↔ c = .closed := by
  cases c <;> simp [Closing.shift]

theorem Closing.shift_eq_missing_none_iff {c : Closing} :
    c.shift k = .missing none ↔ c = .missing none := by
  cases c <;> simp [Closing.shift]

@[simp] theorem Arguments.closing_shift (args : Arguments) :
    (args.shift k).closing = args.closing.shift k := by
  cases args with
  | done c => rw [Arguments.shift]; rfl
  | more e rest =>
    rw [Arguments.shift]
    exact closing_shift rest

@[simp] theorem Operand.isWhole_shift (o : Operand) : (o.shift k).isWhole = o.isWhole := by
  cases o <;> simp [Operand.shift, isWhole, Closing.shift_eq_closed_iff]

@[simp] theorem Operand.failedAtEnd_shift (o : Operand) :
    (o.shift k).failedAtEnd = o.failedAtEnd := by
  cases o with
  | name t => rw [Operand.shift]; rfl
  | literal t => rw [Operand.shift]; rfl
  | call name args => simp [Operand.shift, failedAtEnd, Closing.shift_eq_missing_none_iff]
  | missing found => cases found <;> rw [Operand.shift] <;> rfl

@[simp] theorem Expr.isWhole_shift (e : Expr) : (e.shift k).isWhole = e.isWhole := by
  cases e <;> simp [Expr.shift, isWhole]

@[simp] theorem Expr.failedAtEnd_shift (e : Expr) : (e.shift k).failedAtEnd = e.failedAtEnd := by
  cases e <;> simp [Expr.shift, failedAtEnd]

variable (trap : Bool)

mutual
theorem readOperand_shift (ts : List Token) :
    readOperand trap (ts.map (Token.shift k)) =
      (readOperand trap ts).shift k (Operand.shift k) := by
  cases ts with
  | nil =>
    show readOperand trap [] = _
    simp [readOperand, Reading.shift, Operand.shift]
  | cons t r =>
    show readOperand trap (t.shift k :: r.map (Token.shift k)) = _
    rw [readOperand.eq_def, readOperand.eq_def trap (t :: r)]
    simp only [Token.kind_shift]
    cases hkind : t.kind with
    | ident =>
      cases r with
      | nil => rfl
      | cons p r =>
        have hargs := readArguments_shift r
        dsimp only [List.map]
        by_cases hp : p.kind = .lparen
        · simp [hp, hargs, Reading.shift, Reading.map, Reading.after, Operand.shift]
        · simp [hp, Reading.shift, Operand.shift]
    | _ => simp [Reading.shift, Operand.shift]
termination_by (ts.length, 0)

theorem readArguments_shift (ts : List Token) :
    readArguments trap (ts.map (Token.shift k)) =
      (readArguments trap ts).shift k (Arguments.shift k) := by
  cases ts with
  | nil =>
    have hmore : readArgument trap [] = _ := readArgument_shift []
    show readArguments trap [] = _
    rw [readArguments]
    exact hmore
  | cons c r =>
    have hmore : readArgument trap (c.shift k :: r.map (Token.shift k)) = _ :=
      readArgument_shift (c :: r)
    show readArguments trap (c.shift k :: r.map (Token.shift k)) = _
    rw [readArguments, readArguments, Token.kind_shift]
    by_cases hc : c.kind = .rparen
    · simp [hc, Reading.shift, Arguments.shift, Closing.shift]
    · rw [if_neg hc, if_neg hc]
      exact hmore
termination_by (ts.length, 3)

theorem readArgument_shift (ts : List Token) :
    readArgument trap (ts.map (Token.shift k)) =
      (readArgument trap ts).shift k (Arguments.shift k) := by
  have hexpr := readExpr_shift ts
  rw [readArgument, readArgument, hexpr]
  rcases hread : readExpr trap ts with ⟨e, rest, le⟩
  cases rest with
  | nil =>
    simp only [Reading.shift, List.map_nil, Expr.failedAtEnd_shift]
    split <;> simp [Arguments.shift, Closing.shift]
  | cons c r =>
    have hlt : r.length < ts.length := le
    have hmore := readArgument_shift r
    by_cases hc : c.kind = .comma
    · simp [hc, hmore, Reading.shift, Arguments.shift]
    · by_cases hclose : c.kind = .rparen <;>
        simp [hc, hclose, Reading.shift, Arguments.shift, Closing.shift]
termination_by (ts.length, 2)

theorem readExpr_shift (ts : List Token) :
    readExpr trap (ts.map (Token.shift k)) = (readExpr trap ts).shift k (Expr.shift k) := by
  have hleft := readOperand_shift ts
  rw [readExpr, readExpr, hleft]
  rcases hread : readOperand trap ts with ⟨left, rest, le⟩
  cases rest with
  | nil => simp [Reading.shift, Expr.shift]
  | cons op r =>
    have hlt : r.length < ts.length := le
    have hright := readOperand_shift r
    by_cases hop : left.isWhole ∧ op.kind.isArithmetic
    · simp [hop, hright, Reading.shift, Expr.shift]
    · simp [hop, Reading.shift, Expr.shift]
termination_by (ts.length, 1)
end

theorem readCondition_shift (ts : List Token) :
    readCondition trap (ts.map (Token.shift k)) =
      (readCondition trap ts).shift k (Condition.shift k) := by
  rw [readCondition, readCondition, readExpr_shift]
  rcases hread : readExpr trap ts with ⟨left, rest, le⟩
  cases rest with
  | nil => simp [Reading.shift, Condition.shift]
  | cons op r =>
    by_cases hop : left.isWhole ∧ op.kind.isComparison
    · simp [hop, readExpr_shift, Reading.shift, Condition.shift]
    · simp [hop, Reading.shift, Condition.shift]

@[simp] theorem nextKind_shift (ts : List Token) :
    nextKind (ts.map (Token.shift k)) = nextKind ts := by
  cases ts <;> rfl

/-- The token that was expected, or the one that stood there, in its new place. -/
def shiftExpected : Except Misplaced Token → Except Misplaced Token
  | .error m => .error (m.shift k)
  | .ok t => .ok (t.shift k)

theorem expect_shift (kind : Kind) (ts : List Token) :
    expect kind (ts.map (Token.shift k)) = (expect kind ts).shift k (shiftExpected k) := by
  cases ts with
  | nil => rfl
  | cons t r =>
    show expect kind (t.shift k :: r.map (Token.shift k)) = _
    rw [expect, expect, Token.kind_shift]
    by_cases ht : t.kind = kind <;> simp [ht, Reading.shift, shiftExpected, Misplaced.shift]

/-- Parameters and what is wrong with them in their new places. -/
def shiftParams (ps : List Token × Option Misplaced) : List Token × Option Misplaced :=
  (ps.1.map (Token.shift k), ps.2.map (Misplaced.shift k))

theorem readMoreParams_shift (ts : List Token) :
    readMoreParams (ts.map (Token.shift k)) = (readMoreParams ts).shift k (shiftParams k) := by
  cases ts with
  | nil =>
    show readMoreParams [] = _
    simp [readMoreParams, Reading.shift, shiftParams]
  | cons c r =>
    show readMoreParams (c.shift k :: r.map (Token.shift k)) = _
    rw [readMoreParams, readMoreParams, Token.kind_shift, expect_shift]
    by_cases hc : c.kind = .comma
    · simp only [if_pos hc]
      rcases hread : expect .ident r with ⟨value, rest, le⟩
      cases value with
      | error fault => rfl
      | ok p =>
        have hmore := readMoreParams_shift rest
        simp [hmore, Reading.shift, shiftExpected, shiftParams]
    · simp only [if_neg hc]
      rfl
termination_by ts.length
decreasing_by exact Nat.lt_succ_of_le le

theorem readParams_shift (ts : List Token) :
    readParams (ts.map (Token.shift k)) = (readParams ts).shift k (shiftParams k) := by
  cases ts with
  | nil => rfl
  | cons p r =>
    show readParams (p.shift k :: r.map (Token.shift k)) = _
    rw [readParams, readParams, Token.kind_shift, readMoreParams_shift]
    by_cases hp : p.kind = .ident
    · simp only [if_pos hp]
      rfl
    · simp only [if_neg hp]
      rfl

theorem readFunction_shift (keyword : Token) (ts : List Token) :
    readFunction (keyword.shift k) (ts.map (Token.shift k)) =
      (readFunction keyword ts).shift k (Statement.shift k) := by
  rw [readFunction, readFunction, expect_shift]
  rcases expect .ident ts with ⟨_ | name, r₁, le₁⟩
  · rfl
  simp only [Reading.shift_mk, shiftExpected, expect_shift]
  rcases expect .lparen r₁ with ⟨_ | _, r₂, le₂⟩
  · rfl
  simp only [Reading.shift_mk, shiftExpected, readParams_shift]
  rcases readParams r₂ with ⟨⟨params, _ | fault⟩, r₃, le₃⟩
  · simp only [Reading.shift_mk, shiftParams, Option.map_none, expect_shift]
    rcases expect .rparen r₃ with ⟨_ | _, rest, le⟩ <;> rfl
  · rfl

theorem readVariable_shift (ts : List Token) :
    readVariable trap (ts.map (Token.shift k)) =
      (readVariable trap ts).shift k (Statement.shift k) := by
  rw [readVariable, readVariable, expect_shift]
  rcases expect .ident ts with ⟨_ | name, r₁, le₁⟩
  · rfl
  simp only [Reading.shift_mk, shiftExpected, expect_shift]
  rcases expect .assign r₁ with ⟨_ | _, r₂, le₂⟩
  · rfl
  simp only [Reading.shift_mk, shiftExpected, readExpr_shift, ← List.map_tail, nextKind_shift,
    Statement.shift]
  rfl

theorem readPrint_shift (ts : List Token) :
    readPrint trap (ts.map (Token.shift k)) = (readPrint trap ts).shift k (Statement.shift k) := by
  rw [readPrint, readPrint, nextKind_shift, readExpr_shift]
  by_cases hstarts : (nextKind ts).startsOperand
  · simp only [if_pos hstarts]
    rfl
  · simp only [if_neg hstarts]
    cases ts <;> rfl

theorem readCallOrAssign_shift (name : Token) (ts : List Token) :
    readCallOrAssign trap (name.shift k) (ts.map (Token.shift k)) =
      (readCallOrAssign trap name ts).shift k (Statement.shift k) := by
  cases ts with
  | nil => rfl
  | cons t r =>
    show readCallOrAssign trap (name.shift k) (t.shift k :: r.map (Token.shift k)) = _
    rw [readCallOrAssign, readCallOrAssign, Token.kind_shift, readArguments_shift, readExpr_shift]
    by_cases hcall : t.kind = .lparen
    · simp [hcall, Reading.shift, Reading.map, Reading.after, Statement.shift, Operand.shift]
    · by_cases hassign : t.kind = .assign <;>
        simp [hcall, hassign, Reading.shift, Reading.map, Reading.after, Statement.shift,
          Misplaced.shift]

theorem readStatement_shift (t : Token) (ts : List Token) :
    readStatement trap (t.shift k) (ts.map (Token.shift k)) =
      (readStatement trap t ts).shift k (Statement.shift k) := by
  rw [readStatement, readStatement, Token.kind_shift]
  cases t.kind with
  | kwVar => exact readVariable_shift k trap ts
  | kwPrint => exact readPrint_shift k trap ts
  | kwFun => exact readFunction_shift k t ts
  | ident => exact readCallOrAssign_shift k trap t ts
  | kwWhile => simp only [readCondition_shift]; rfl
  | kwIf => simp only [readCondition_shift]; rfl
  | kwReturn =>
    simp only [nextKind_shift, readExpr_shift]
    by_cases hstarts : (nextKind ts).startsOperand
    · simp only [if_pos hstarts]
      rfl
    · simp only [if_neg hstarts]
      rfl
  | _ => rfl

theorem readStatements_shift (ts : List Token) :
    readStatements trap (ts.map (Token.shift k)) =
      (readStatements trap ts).map (Placed.shift k) := by
  fun_induction readStatements trap ts with
  | case1 => 
    show readStatements trap [] = _
    rw [readStatements]
    rfl
  | case2 t r s ih =>
    show readStatements trap (t.shift k :: r.map (Token.shift k)) = _
    rw [readStatements, readStatement_shift]
    rw [List.map_cons, ← ih]
    simp [Placed.shift, Reading.shift, List.map_take, s]

end Readers

section Writers

/-- What writing needs to know of the source with its place moved. -/
def Source.Tokens.shift (src : Source.Tokens) : Source.Tokens :=
  { src with finish := src.finish.shift k }

/-- The draft with the places of its reports moved. -/
def Draft.shift (d : Draft) : Draft := { d with reports := d.reports.map (Diagnostic.shift k) }

/-- The names with the places of the source moved. -/
def Lexicon.shift (lx : Lexicon) : Lexicon := { lx with source := lx.source.shift k }

/-- The block with its place moved. -/
def Block.shift (b : Block) : Block := { b with opened := b.opened.shift k }

/-- What writing carries on, with the places of the open blocks moved. -/
def Desk.shift (desk : Desk) : Desk := { desk with blocks := desk.blocks.map (Block.shift k) }

/-- What was written with all places moved. -/
def Written.shift (w : Written) : Written :=
  { w with reports := w.reports.map (Diagnostic.shift k), desk := w.desk.shift k }

namespace Source.Tokens

variable (src : Source.Tokens)

theorem found_shift (t : Option Token) :
    (src.shift k).found (t.map (Token.shift k)) = (src.found t).shift k := by
  cases t <;> rfl

theorem misplaced_shift (m : Misplaced) :
    (src.shift k).misplaced (m.shift k) = (src.misplaced m).shift k := by
  rw [misplaced, misplaced, Misplaced.shift, found_shift]
  split <;> rfl

theorem noOperand_shift (t : Option Token) :
    (src.shift k).noOperand (t.map (Token.shift k)) = (src.noOperand t).shift k := by
  rw [noOperand, noOperand, found_shift]
  rfl

end Source.Tokens

variable {k}

/-- The text of a token is read off its offsets, so it is the same in another file. -/
theorem Source.Tokens.text_shift (hoff : k.off = 0) (src : Source.Tokens) (t : Token) :
    (src.shift k).text (t.shift k) = src.text t := by
  have hspan : (t.shift k).span = ⟨t.span.file + k.file, t.span.start, t.span.stop⟩ := by
    simp [Token.shift, Span.shift, hoff]
  cases hcontent : src.content with
  | none => simp [text, shift, hcontent]
  | some content =>
    simp only [text, shift, hcontent, Token.text, hspan]
    rfl

namespace Lexicon

theorem resolve_shift (hoff : k.off = 0) (lx : Lexicon) (t : Token) :
    (lx.shift k).resolve (t.shift k) =
      ((lx.resolve t).1, (lx.resolve t).2.map (Diagnostic.shift k)) := by
  have htext : (lx.shift k).source.text (t.shift k) = lx.source.text t :=
    lx.source.text_shift hoff t
  have hnames : (lx.shift k).names = lx.names := rfl
  rw [resolve, resolve, htext, hnames]
  cases lx.names.lookup (lx.source.text t) <;> rfl

theorem literal_shift (hoff : k.off = 0) (lx : Lexicon) (t : Token) :
    (lx.shift k).literal (t.shift k) = lx.literal t := by
  have htext : (lx.shift k).source.text (t.shift k) = lx.source.text t :=
    lx.source.text_shift hoff t
  rw [literal, literal, htext, Token.kind_shift]

mutual
theorem operand_shift (hoff : k.off = 0) (lx : Lexicon) :
    ∀ o : Operand, (lx.shift k).operand (o.shift k) = (lx.operand o).shift k
  | .name t => by
    rw [Operand.shift, operand, operand, resolve_shift hoff]
    rfl
  | .literal t => by
    rw [Operand.shift, operand, operand, literal_shift hoff]
    rfl
  | .call name args => by
    rw [Operand.shift, operand, operand, resolve_shift hoff, arguments_shift hoff lx args,
      Arguments.closing_shift]
    cases args.closing <;> simp [Closing.shift, Draft.shift]
  | .missing found => by
    rw [Operand.shift, operand, operand]
    exact congrArg (fun d => Draft.mk none [d]) (lx.source.noOperand_shift k found)

theorem expr_shift (hoff : k.off = 0) (lx : Lexicon) :
    ∀ e : Expr, (lx.shift k).expr (e.shift k) = (lx.expr e).shift k
  | .single l => by
    rw [Expr.shift, expr, expr, operand_shift hoff lx l]
  | .binary l op r => by
    rw [Expr.shift, expr, expr, operand_shift hoff lx l, operand_shift hoff lx r]
    simp only [Draft.shift]
    split <;> simp

theorem arguments_shift (hoff : k.off = 0) (lx : Lexicon) : ∀ args : Arguments,
    (lx.shift k).arguments (args.shift k) =
      ((lx.arguments args).1, (lx.arguments args).2.map (Diagnostic.shift k))
  | .done .closed => by rw [Arguments.shift, Closing.shift, arguments, arguments] <;> simp
  | .done .endless => by rw [Arguments.shift, Closing.shift, arguments, arguments] <;> simp
  | .done (.missing found) => by
    rw [Arguments.shift, Closing.shift, arguments, arguments]
    exact congrArg (fun d => ([], [d])) (lx.source.misplaced_shift k ⟨[.rparen], found⟩)
  | .more e rest => by
    rw [Arguments.shift, arguments, arguments, expr_shift hoff lx e, arguments_shift hoff lx rest]
    simp [Draft.shift]
end

theorem condition_shift (hoff : k.off = 0) (lx : Lexicon) (c : Condition) :
    (lx.shift k).condition (c.shift k) = (lx.condition c).shift k := by
  cases c with
  | plain e => exact expr_shift hoff lx e
  | compare l op r =>
    rw [Condition.shift, condition, condition, expr_shift hoff, expr_shift hoff]
    simp only [Draft.shift]
    split <;> simp

end Lexicon

namespace Desk

variable (hoff : k.off = 0) (src : Source.Tokens) (style : Style) (desk : Desk)

theorem push_shift (kind : BlockKind) (keyword : Token) :
    (desk.shift k).push kind (keyword.shift k) = (desk.push kind keyword).shift k :=
  rfl

theorem wrap_shift (d : Draft) (f : Text → Text) :
    (desk.shift k).wrap (d.shift k) f = (desk.wrap d f).shift k :=
  rfl

theorem close_shift (keyword : Token) :
    (desk.shift k).close style (keyword.shift k) = (desk.close style keyword).shift k := by
  obtain ⟨names, blocks⟩ := desk
  cases blocks with
  | nil => simp only [close, shift, List.map_nil]; split <;> rfl
  | cons b outer => rfl

theorem otherwise_shift (keyword : Token) :
    (desk.shift k).otherwise style (keyword.shift k) = (desk.otherwise style keyword).shift k := by
  obtain ⟨names, blocks⟩ := desk
  rcases blocks with _ | ⟨⟨kind, opened⟩, outer⟩
  · simp only [otherwise, shift, List.map_nil]
    split <;> rfl
  · cases kind with
    | ifBranch => rfl
    | _ =>
      simp only [otherwise, shift, List.map_cons, Block.shift]
      split <;> rfl

theorem finish_shift :
    (desk.shift k).finish (src.shift k) style = (desk.finish src style).shift k := by
  rw [finish, finish]
  by_cases hstrict : style.strict
  · simp only [if_pos hstrict, Written.shift, shift, List.map_map, List.map_nil]
    rfl
  · simp only [if_neg hstrict]
    rfl

include hoff

theorem bind_shift (warn : Bool) (t : Token) :
    (desk.shift k).bind (src.shift k) style warn (t.shift k) =
      ((desk.bind src style warn t).1, (desk.bind src style warn t).2.1.map (Diagnostic.shift k),
        (desk.bind src style warn t).2.2.shift k) := by
  rw [bind, bind, src.text_shift hoff]
  simp only [shift, List.map_append, Prod.mk.injEq, true_and, and_true]
  congr 1
  · rw [apply_ite (List.map (Diagnostic.shift k))]
    rfl
  · split <;> rfl

theorem bindParams_shift (ts : List Token) :
    (desk.shift k).bindParams (src.shift k) style (ts.map (Token.shift k)) =
      ((desk.bindParams src style ts).1,
        (desk.bindParams src style ts).2.1.map (Diagnostic.shift k),
        (desk.bindParams src style ts).2.2.shift k) := by
  induction ts generalizing desk with
  | nil => rfl
  | cons t r ih =>
    rw [List.map_cons, bindParams, bindParams, bind_shift hoff]
    dsimp only
    rw [ih]
    simp

theorem declare_shift (name : Token) (quoted : Bool) (value : Expr) :
    (desk.shift k).declare (src.shift k) style (name.shift k) quoted (value.shift k) =
      (desk.declare src style name quoted value).shift k := by
  have hvalue : Lexicon.expr ⟨src.shift k, (desk.shift k).names⟩ (value.shift k) =
      (Lexicon.expr ⟨src, desk.names⟩ value).shift k :=
    Lexicon.expr_shift hoff ⟨src, desk.names⟩ value
  rw [declare, declare, hvalue, bind_shift hoff]
  dsimp only [Draft.shift]
  split
  · rfl
  · simp [Written.shift]

theorem function_shift (keyword : Token) (name : Option Token) (params : List Token)
    (fault : Option Misplaced) :
    (desk.shift k).function (src.shift k) style (keyword.shift k) (name.map (Token.shift k))
        (params.map (Token.shift k)) (fault.map (Misplaced.shift k)) =
      (desk.function src style keyword name params fault).shift k := by
  have hfaults : (fault.map (Misplaced.shift k)).toList.map (src.shift k).misplaced =
      (fault.toList.map src.misplaced).map (Diagnostic.shift k) := by
    cases fault with
    | none => rfl
    | some m => exact congrArg (fun d => [d]) (src.misplaced_shift k m)
  cases name with
  | none =>
    show function (src.shift k) style (desk.shift k) (keyword.shift k) none _ _ = _
    rw [function, function, hfaults]
    rfl
  | some name =>
    show function (src.shift k) style (desk.shift k) (keyword.shift k) (some (name.shift k)) _ _ = _
    rw [function, function, push_shift, hfaults, Option.isSome_map, bind_shift hoff]
    dsimp only
    rw [bindParams_shift hoff]
    simp [Written.shift]

theorem write_shift (st : Statement) :
    (desk.shift k).write (src.shift k) style (st.shift k) = (desk.write src style st).shift k := by
  have hexpr (e : Expr) : Lexicon.expr ⟨src.shift k, (desk.shift k).names⟩ (e.shift k) =
      (Lexicon.expr ⟨src, desk.names⟩ e).shift k :=
    Lexicon.expr_shift hoff ⟨src, desk.names⟩ e
  have hcondition (c : Condition) :
      Lexicon.condition ⟨src.shift k, (desk.shift k).names⟩ (c.shift k) =
        (Lexicon.condition ⟨src, desk.names⟩ c).shift k :=
    Lexicon.condition_shift hoff ⟨src, desk.names⟩ c
  cases st with
  | declare name quoted value => exact declare_shift hoff src style desk name quoted value
  | print value => rw [Statement.shift, write, write, hexpr, wrap_shift]
  | function keyword name params fault =>
    exact function_shift hoff src style desk keyword name params fault
  | call callee =>
    have hcallee : Lexicon.operand ⟨src.shift k, (desk.shift k).names⟩ (callee.shift k) =
        (Lexicon.operand ⟨src, desk.names⟩ callee).shift k :=
      Lexicon.operand_shift hoff ⟨src, desk.names⟩ callee
    rw [Statement.shift, write, write, hcallee, wrap_shift]
  | assign name value =>
    have hname : Lexicon.resolve ⟨src.shift k, (desk.shift k).names⟩ (name.shift k) =
        ((Lexicon.resolve ⟨src, desk.names⟩ name).1,
          (Lexicon.resolve ⟨src, desk.names⟩ name).2.map (Diagnostic.shift k)) :=
      Lexicon.resolve_shift hoff ⟨src, desk.names⟩ name
    rw [Statement.shift, write, write, hname, hexpr]
    simp [Draft.shift, wrap, Written.shift]
  | raw t =>
    rw [Statement.shift, write, write, src.text_shift hoff]
    rfl
  | close keyword => exact close_shift style desk keyword
  | whileLoop keyword c => rw [Statement.shift, write, write, hcondition, push_shift, wrap_shift]
  | ifBranch keyword c => rw [Statement.shift, write, write, hcondition, push_shift, wrap_shift]
  | elseBranch keyword => exact otherwise_shift style desk keyword
  | giveBack value =>
    cases value with
    | none => rfl
    | some value =>
      show write (src.shift k) style (desk.shift k) (.giveBack (some (value.shift k))) = _
      rw [write, write, hexpr, wrap_shift]
  | forLoop keyword => rfl
  | classHead keyword => rfl
  | broken fault =>
    rw [Statement.shift, write, write, src.misplaced_shift]
    rfl
  | stray t => rfl
  | finish => exact finish_shift src style desk

theorem writeAll_shift (ps : List Placed) :
    (desk.shift k).writeAll (src.shift k) style (ps.map (Placed.shift k)) =
      (desk.writeAll src style ps).map (Written.shift k) := by
  induction ps generalizing desk with
  | nil => rfl
  | cons p r ih =>
    rw [List.map_cons, writeAll, writeAll, List.map_cons, ← ih]
    have hp : (p.shift k).statement = p.statement.shift k := rfl
    rw [hp, write_shift hoff]
    rfl

end Desk
end Writers

section Reports

theorem Diagnostic.same_shift (a b : Diagnostic) :
    (a.shift k).same (b.shift k) = a.same b := by
  have hspan : (a.span.shift k = b.span.shift k) ↔ a.span = b.span :=
    ⟨Span.shift_injective k, congrArg _⟩
  simp only [same, shift, hspan]

theorem Diagnostic.distinctFrom_shift (seen ds : List Diagnostic) :
    distinctFrom (seen.map (shift k)) (ds.map (shift k)) =
      (distinctFrom seen ds).map (shift k) := by
  induction ds generalizing seen with
  | nil => rfl
  | cons d r ih =>
    have hany : (seen.map (shift k)).any (same (d.shift k)) = seen.any (same d) := by
      rw [List.any_map]
      exact congrArg (List.any seen) (funext fun e => same_shift k d e)
    rw [List.map_cons, distinctFrom, distinctFrom, hany]
    split
    · exact ih seen
    · rw [List.map_cons, ← ih (d :: seen), List.map_cons]

theorem Diagnostic.distinct_shift (ds : List Diagnostic) :
    distinct (ds.map (shift k)) = (distinct ds).map (shift k) :=
  distinctFrom_shift k [] ds

end Reports

/-- The script with the places of its reports moved. -/
def Script.shift (k : Shift) (s : Script) : Script :=
  { s with reports := s.reports.map (Diagnostic.shift k) }

section Files

variable (i j : FileId)

theorem Shift.add_file_toFile : i + (toFile i j).file = j := by
  show i + (j - i) = j
  rw [UInt32.add_comm, UInt32.sub_add_cancel]

theorem TokenList.ofList_toFile (ts : List Token) :
    TokenList.ofList j (ts.map (Token.shift (.toFile i j))) =
      ⟨(ofList i ts).body.map (Token.shift (.toFile i j)),
        (ofList i ts).finish.shift (.toFile i j), (ofList i ts).trap⟩ := by
  have hend : impliedEnd j (ts.map (Token.shift (.toFile i j))) =
      (impliedEnd i ts).shift (.toFile i j) := by
    rw [impliedEnd, impliedEnd, List.getLast?_map]
    cases ts.getLast? with
    | none =>
      simp only [Token.shift, Span.shift, Span.point, Shift.add_file_toFile]
      rfl
    | some last => rfl
  have hbody : (ts.map (Token.shift (.toFile i j))).takeWhile (·.kind ≠ .endOfInput) =
      (ts.takeWhile (·.kind ≠ .endOfInput)).map (Token.shift (.toFile i j)) := by
    rw [List.takeWhile_map]
    rfl
  rw [ofList, ofList, hbody, List.length_map, ← List.map_drop, hend]
  cases ts.drop (ts.takeWhile (·.kind ≠ .endOfInput)).length with
  | nil => rfl
  | cons finish after => cases after <;> rfl

/-- **A script is the same in every file**, and so is what is reported but for its place. -/
theorem transpile_toFile (content : Option Text) (style : Style) (ts : List Token) :
    transpile j content style (ts.map (Token.shift (.toFile i j))) =
      (transpile i content style ts).shift (.toFile i j) := by
  have hwritten : Desk.writeAll
        ⟨content, (TokenList.ofList j (ts.map (Token.shift (.toFile i j)))).finish⟩ style {}
        (TokenList.ofList j (ts.map (Token.shift (.toFile i j)))).statements =
      (Desk.writeAll ⟨content, (TokenList.ofList i ts).finish⟩ style {}
        (TokenList.ofList i ts).statements).map (Written.shift (.toFile i j)) := by
    rw [TokenList.ofList_toFile i j, TokenList.statements, readStatements_shift]
    exact Desk.writeAll_shift rfl ⟨content, _⟩ style {} _
  have hreports (ws : List Written) : (ws.map (Written.shift (.toFile i j))).flatMap (·.reports) =
      (ws.flatMap (·.reports)).map (Diagnostic.shift (.toFile i j)) := by
    rw [List.flatMap_map, List.map_flatMap]
    rfl
  simp only [transpile, hwritten, hreports, Diagnostic.distinct_shift, List.map_map,
    List.getLast?_map, Option.map_map, Script.shift]
  rfl

/-- The tokens and reports with all places moved. -/
def Lexed.shift (k : Shift) (l : Lexed) : Lexed :=
  ⟨l.tokens.map (Token.shift k), l.reports.map (Diagnostic.shift k)⟩

/-- **A content is read the same in every file** but for the file of the places. -/
theorem tokenize_toFile (content : Text) :
    tokenize j content = (tokenize i content).shift (.toFile i j) := by
  have hstart : Cursor.start j content = (Cursor.start i content).shift (.toFile i j) := by
    simp only [Cursor.start, Cursor.shift, Shift.add_file_toFile]
    rfl
  rw [tokenize, hstart, Cursor.fetchAll_shift, List.map_map, List.filterMap_map, tokenize,
    Lexed.shift, List.map_map, List.map_filterMap]
  rfl

end Files
end Tarjuman
