/-
# Which text of a script is the translator's own

A fragment is put together from texts that the translator supplies, such as
`while(` and the brace behind it, and from texts that come from the source: names,
literals and raw text, whatever they hold.  `Desk.pieces` writes a statement as such
pieces, side by side with `Desk.write`; joined, they are the fragment
(`Desk.render_pieces`).  So it can be said of a brace in a script who wrote it.
-/

import Tarjuman.Script.Transpile

namespace Tarjuman

/-- A part of a fragment. -/
inductive Piece where
  /-- Supplied by the translator. -/
  | own (t : Text)
  /-- From the source: a name in its spelling, a literal, a quoted value or raw text. -/
  | copied (t : Text)
deriving DecidableEq, Repr

namespace Piece

/-- The text of a piece. -/
def text : Piece → Text
  | own t | copied t => t

/-- The pieces as one text. -/
def render (ps : List Piece) : Text := ps.flatMap text

/-- The brace that opens a block. -/
def opening : UInt8 := Text.byte '\x7b'

/-- The brace that closes a block. -/
def closing : UInt8 := Text.byte '\x7d'

/-- The byte is a brace. -/
def isBrace (b : UInt8) : Bool := b = opening || b = closing

/-- The braces that the translator wrote. -/
def ownBraces : List Piece → List UInt8
  | [] => []
  | own t :: r => t.filter isBrace ++ ownBraces r
  | copied _ :: r => ownBraces r

@[simp] theorem render_nil : render [] = [] := rfl

@[simp] theorem render_own_cons (t : Text) (ps : List Piece) :
    render (own t :: ps) = t ++ render ps := rfl

@[simp] theorem render_copied_cons (t : Text) (ps : List Piece) :
    render (copied t :: ps) = t ++ render ps := rfl

@[simp] theorem render_append (ps qs : List Piece) : render (ps ++ qs) = render ps ++ render qs :=
  List.flatMap_append

@[simp] theorem ownBraces_append (ps qs : List Piece) :
    ownBraces (ps ++ qs) = ownBraces ps ++ ownBraces qs := by
  induction ps with
  | nil => rfl
  | cons p r ih =>
    cases p with
    | own t => rw [List.cons_append, ownBraces, ih, ownBraces, List.append_assoc]
    | copied t => exact ih

/-- Pieces with a comma between them. -/
def commaJoin : List (List Piece) → List Piece
  | [] => []
  | [ps] => ps
  | ps :: qs :: r => ps ++ own "," :: commaJoin (qs :: r)

theorem render_commaJoin (pss : List (List Piece)) :
    render (commaJoin pss) = Text.join "," (pss.map render) := by
  fun_induction commaJoin pss with
  | case1 => rfl
  | case2 ps => exact (List.append_nil _).symm
  | case3 ps qs r ih =>
    rw [render_append, render_own_cons, ih]
    simp [Text.join, List.intercalate]

theorem ownBraces_commaJoin {pss : List (List Piece)} (h : ∀ ps ∈ pss, ownBraces ps = []) :
    ownBraces (commaJoin pss) = [] := by
  fun_induction commaJoin pss with
  | case1 => rfl
  | case2 ps => exact h ps List.mem_cons_self
  | case3 ps qs r ih =>
    obtain ⟨hps, hr⟩ := List.forall_mem_cons.1 h
    rw [ownBraces_append, hps]
    exact ih hr

end Piece

namespace Lexicon

variable (lx : Lexicon)

/-- The piece of a literal. -/
def literalPiece (t : Token) : Piece :=
  match t.kind with
  | .numberLit => .copied (scriptNumber (lx.source.text t))
  | .kwTrue => .own "true"
  | .kwFalse => .own "false"
  | .kwNil => .own "null"
  | _ => .copied (lx.source.text t)

mutual
/-- The pieces of an operand that is written. -/
def operandPieces : Operand → Option (List Piece)
  | .name t => some [.copied (lx.resolve t).1]
  | .literal t => some [lx.literalPiece t]
  | .call name args =>
    match args.closing with
    | .closed =>
      some (.copied (lx.resolve name).1 :: .own "(" ::
        (Piece.commaJoin (argumentPieces args) ++ [.own ")"]))
    | _ => none
  | .missing _ => none
/-- The pieces of an expression that is written. -/
def exprPieces : Expr → Option (List Piece)
  | .single l => operandPieces l
  | .binary l op r =>
    match operandPieces l, operandPieces r with
    | some a, some b =>
      some (.own "(" :: (a ++ .own (" " ++ op.operatorText ++ " ") :: (b ++ [.own ")"])))
    | _, _ => none
/-- The pieces of the arguments that are written. -/
def argumentPieces : Arguments → List (List Piece)
  | .done _ => []
  | .more e rest => (exprPieces e).toList ++ argumentPieces rest
end

/-- The pieces of a condition that is written. -/
def conditionPieces : Condition → Option (List Piece)
  | .plain e => lx.exprPieces e
  | .compare l op r =>
    match lx.exprPieces l, lx.exprPieces r with
    | some a, some b => some (a ++ .own (" " ++ op.operatorText ++ " ") :: b)
    | _, _ => none

theorem text_literalPiece (t : Token) : (lx.literalPiece t).text = lx.literal t := by
  rw [literalPiece, literal]
  cases t.kind <;> rfl

mutual
theorem render_operandPieces : ∀ o : Operand,
    (lx.operandPieces o).map Piece.render = (lx.operand o).text
  | .name t => congrArg some (List.append_nil _)
  | .literal t => by
    rw [operandPieces, operand, ← text_literalPiece]
    exact congrArg some (List.append_nil _)
  | .call name args => by
    rw [operandPieces, operand]
    dsimp only
    rw [← render_argumentPieces args]
    cases args.closing with
    | closed => simp [Piece.render_commaJoin]
    | missing _ => rfl
    | endless => rfl
  | .missing found => rfl

theorem render_exprPieces : ∀ e : Expr, (lx.exprPieces e).map Piece.render = (lx.expr e).text
  | .single l => render_operandPieces l
  | .binary l op r => by
    have hl := render_operandPieces l
    have hr := render_operandPieces r
    rw [exprPieces, expr, ← hl, ← hr]
    cases lx.operandPieces l with
    | none => rfl
    | some a =>
      cases lx.operandPieces r with
      | none => rfl
      | some b => simp

theorem render_argumentPieces : ∀ args : Arguments,
    (lx.argumentPieces args).map Piece.render = (lx.arguments args).1
  | .done (.missing _) | .done .closed | .done .endless => rfl
  | .more e rest => by
    rw [argumentPieces, arguments, List.map_append, render_argumentPieces rest,
      ← render_exprPieces e]
    cases lx.exprPieces e <;> rfl
end

theorem render_conditionPieces (c : Condition) :
    (lx.conditionPieces c).map Piece.render = (lx.condition c).text := by
  cases c with
  | plain e => exact lx.render_exprPieces e
  | compare l op r =>
    rw [conditionPieces, condition, ← render_exprPieces, ← render_exprPieces]
    cases lx.exprPieces l with
    | none => rfl
    | some a =>
      cases lx.exprPieces r with
      | none => rfl
      | some b => simp

/-- No operator holds a brace. -/
theorem filter_isBrace_operatorText (op : Kind) :
    (" " ++ op.operatorText ++ " " : Text).filter Piece.isBrace = [] := by
  cases op <;> decide

theorem ownBraces_literalPiece (t : Token) : Piece.ownBraces [lx.literalPiece t] = [] := by
  rw [literalPiece]
  cases t.kind <;> rfl

mutual
theorem ownBraces_operandPieces : ∀ o : Operand,
    ∀ ps ∈ lx.operandPieces o, Piece.ownBraces ps = []
  | .name t => by
    rintro _ ⟨⟩
    rfl
  | .literal t => by
    rintro _ ⟨⟩
    exact lx.ownBraces_literalPiece t
  | .call name args => by
    have hargs := Piece.ownBraces_commaJoin (ownBraces_argumentPieces args)
    rw [operandPieces]
    split
    · rintro _ ⟨⟩
      rw [Piece.ownBraces, Piece.ownBraces, Piece.ownBraces_append, hargs]
      rfl
    · exact nofun
  | .missing found => nofun

theorem ownBraces_exprPieces : ∀ e : Expr, ∀ ps ∈ lx.exprPieces e, Piece.ownBraces ps = []
  | .single l => ownBraces_operandPieces l
  | .binary l op r => by
    have hl := ownBraces_operandPieces l
    have hr := ownBraces_operandPieces r
    rw [exprPieces]
    split
    · rename_i a b ha hb
      rintro _ ⟨⟩
      rw [Piece.ownBraces, Piece.ownBraces_append, hl a ha, Piece.ownBraces,
        filter_isBrace_operatorText, Piece.ownBraces_append, hr b hb]
      rfl
    · exact nofun

theorem ownBraces_argumentPieces : ∀ args : Arguments,
    ∀ ps ∈ lx.argumentPieces args, Piece.ownBraces ps = []
  | .done _ => nofun
  | .more e rest => by
    rw [argumentPieces]
    refine List.forall_mem_append.2 ⟨fun ps hps => ?_, ownBraces_argumentPieces rest⟩
    exact ownBraces_exprPieces e ps (Option.mem_toList.1 hps)
end

/-- **The translator writes no brace inside an expression or a condition.** -/
theorem ownBraces_conditionPieces (c : Condition) :
    ∀ ps ∈ lx.conditionPieces c, Piece.ownBraces ps = [] := by
  cases c with
  | plain e => exact lx.ownBraces_exprPieces e
  | compare l op r =>
    rw [conditionPieces]
    split
    · rename_i a b ha hb
      rintro _ ⟨⟩
      rw [Piece.ownBraces_append, lx.ownBraces_exprPieces l a ha, Piece.ownBraces,
        filter_isBrace_operatorText, lx.ownBraces_exprPieces r b hb]
      rfl
    · exact nofun

end Lexicon

namespace Desk

/-- A statement with an expression in it: no pieces unless the expression is whole. -/
def wrapPieces (d : Option (List Piece)) (before behind : List Piece) : List Piece :=
  match d with
  | some ps => before ++ (ps ++ behind)
  | none => []

variable (src : Source.Tokens) (style : Style)

/-- The pieces of the head of a function. -/
def functionPieces (desk : Desk) (keyword : Token) (name : Option Token) (params : List Token)
    (fault : Option Misplaced) : List Piece :=
  match name, fault with
  | some name, none =>
    let (spelling, _, desk) := (desk.push .function keyword).bind src style true name
    let (spellings, _, _) := desk.bindParams src style params
    [.own "function ", .copied spelling, .own " ("] ++
      (Piece.commaJoin (spellings.map fun p => [.copied p]) ++ [.own ") \x7b"])
  | _, _ => []

/-- The pieces of a statement. -/
def pieces (desk : Desk) : Statement → List Piece
  | .declare name quoted value =>
    let d := Lexicon.exprPieces ⟨src, desk.names⟩ value
    let d := if quoted then d.map fun ps => [.copied (Piece.render ps).quoted] else d
    wrapPieces d [.own "let ", .copied (desk.bind src style true name).1, .own " = ("] [.own ");"]
  | .print value =>
    wrapPieces (Lexicon.exprPieces ⟨src, desk.names⟩ value) [.own "console.log("] [.own ");"]
  | .function keyword name params fault => desk.functionPieces src style keyword name params fault
  | .call callee => wrapPieces (Lexicon.operandPieces ⟨src, desk.names⟩ callee) [] []
  | .assign name value =>
    wrapPieces (Lexicon.exprPieces ⟨src, desk.names⟩ value)
      [.copied (Lexicon.resolve ⟨src, desk.names⟩ name).1, .own " = ("] [.own ");"]
  | .raw t => [.copied (src.text t)]
  | .close _ =>
    match desk.blocks with
    | _ :: _ => [.own "\x7d"]
    | [] => if style.strict then [] else [.own "\x7d"]
  | .whileLoop _ c =>
    wrapPieces (Lexicon.conditionPieces ⟨src, desk.names⟩ c) [.own "while("] [.own ") \x7b"]
  | .ifBranch _ c =>
    wrapPieces (Lexicon.conditionPieces ⟨src, desk.names⟩ c) [.own "if("] [.own ") \x7b"]
  | .elseBranch _ =>
    match desk.blocks with
    | ⟨.ifBranch, _⟩ :: _ => [.own "\x7d else \x7b"]
    | _ => if style.strict then [] else [.own "\x7d else \x7b"]
  | .giveBack none => [.own "return;"]
  | .giveBack (some value) =>
    wrapPieces (Lexicon.exprPieces ⟨src, desk.names⟩ value) [.own "return "] [.own ";"]
  | .forLoop _ | .classHead _ | .broken _ | .stray _ => []
  | .finish => if style.banner then [.own Style.closingBanner] else []

theorem render_wrapPieces (desk : Desk) {d : Option (List Piece)} {draft : Draft}
    (h : d.map Piece.render = draft.text) (before behind : List Piece) {f : Text → Text}
    (hf : ∀ t, Piece.render before ++ (t ++ Piece.render behind) = f t) :
    Piece.render (wrapPieces d before behind) = (desk.wrap draft f).fragment := by
  rw [wrap, ← h, wrapPieces.eq_def]
  cases d with
  | none => rfl
  | some ps =>
    rw [Option.map_some, Option.map_some, Option.getD_some, ← hf, ← Piece.render_append,
      ← Piece.render_append]

theorem render_commaJoin_copied (ts : List Text) :
    Piece.render (Piece.commaJoin (ts.map fun t => [.copied t])) = Text.join "," ts := by
  rw [Piece.render_commaJoin, List.map_map]
  congr 1
  exact (List.map_congr_left fun t _ => List.append_nil t).trans (List.map_id ts)

theorem render_functionPieces (desk : Desk) (keyword : Token) (name : Option Token)
    (params : List Token) (fault : Option Misplaced) :
    Piece.render (desk.functionPieces src style keyword name params fault) =
      (desk.function src style keyword name params fault).fragment := by
  rw [functionPieces.eq_def, function.eq_def]
  cases name with
  | none => rfl
  | some name =>
    cases fault with
    | some fault => rfl
    | none => simp [render_commaJoin_copied]

/-- **The pieces of a statement make up its fragment.** -/
theorem render_pieces (desk : Desk) (s : Statement) :
    Piece.render (desk.pieces src style s) = (desk.write src style s).fragment := by
  have hexpr := Lexicon.render_exprPieces ⟨src, desk.names⟩
  have hcondition := Lexicon.render_conditionPieces ⟨src, desk.names⟩
  cases s with
  | declare name quoted value =>
    rw [pieces, write, declare, ← hexpr]
    cases Lexicon.exprPieces ⟨src, desk.names⟩ value with
    | none => cases quoted <;> rfl
    | some ps => cases quoted <;> simp [wrapPieces]
  | print value => exact render_wrapPieces desk (hexpr value) _ _ fun t => by simp
  | function keyword name params fault =>
    exact render_functionPieces src style desk keyword name params fault
  | call callee =>
    exact render_wrapPieces desk (Lexicon.render_operandPieces _ callee) _ _ fun t => by simp
  | assign name value =>
    exact render_wrapPieces desk (hexpr value) _ _ fun t => (List.append_assoc ..).symm
  | raw t => exact List.append_nil _
  | close keyword =>
    rw [pieces, write, close]
    cases desk.blocks with
    | nil => cases style.strict <;> rfl
    | cons b outer => rfl
  | whileLoop keyword c => exact render_wrapPieces _ (hcondition c) _ _ fun t => by simp
  | ifBranch keyword c => exact render_wrapPieces _ (hcondition c) _ _ fun t => by simp
  | elseBranch keyword =>
    rw [pieces, write, otherwise]
    cases desk.blocks with
    | nil => cases style.strict <;> rfl
    | cons b outer =>
      obtain ⟨kind, opened⟩ := b
      cases kind <;> cases style.strict <;> rfl
  | giveBack value =>
    cases value with
    | none => rfl
    | some value => exact render_wrapPieces desk (hexpr value) _ _ fun t => by simp
  | forLoop keyword => rfl
  | classHead keyword => rfl
  | broken fault => rfl
  | stray t => rfl
  | finish =>
    rw [pieces, write, finish]
    split <;> rfl

/-- The pieces of statements that are written one after the other. -/
def allPieces (desk : Desk) : List Placed → List (List Piece)
  | [] => []
  | p :: r =>
    desk.pieces src style p.statement :: allPieces (desk.write src style p.statement).desk r

theorem map_render_allPieces (desk : Desk) (ps : List Placed) :
    (desk.allPieces src style ps).map Piece.render =
      (desk.writeAll src style ps).map (·.fragment) := by
  induction ps generalizing desk with
  | nil => rfl
  | cons p r ih =>
    rw [allPieces, writeAll, List.map_cons, List.map_cons, ih, render_pieces]

end Desk

/-- The pieces of the statements of a source, one list for each. -/
def statementPieces (file : FileId) (content : Option Text) (style : Style) (ts : List Token) :
    List (List Piece) :=
  let ts := TokenList.ofList file ts
  Desk.allPieces ⟨content, ts.finish⟩ style {} ts.statements

/-- **The fragments of a script are its pieces**, behind the mark at its start. -/
theorem fragments_transpile (file : FileId) (content : Option Text) (style : Style)
    (ts : List Token) :
    (transpile file content style ts).fragments =
      (if style.prelude then [Style.openingBanner] else []) ++
        (statementPieces file content style ts).map Piece.render :=
  congrArg _ (Desk.map_render_allPieces ..).symm

end Tarjuman
