/-
# Blocks nest

The statements of a source that is translated without an error form a body:

    Body ::= (simple | Fun Body End | While Body End | If Body End | If Body Else Body End)*

Raw text stands outside of this.  The desk keeps the kinds of the open blocks, and each
statement turns them in its own way (`Desk.turns_write`); what is left to come closes
them, the innermost first (`Closes`), and when the input ends none is open.  The braces
that the translator writes follow the statements one to one, so they match as well
(`Body.matched`), whatever stands in names, literals and raw text.
-/

import Mathlib
import Tarjuman.Proofs.ErrorFree
import Tarjuman.Proofs.OwnText
import Tarjuman.Proofs.ReportPlaces

namespace Tarjuman

namespace Statement

/-- Raw text. -/
def isRaw : Statement → Bool
  | raw _ => true
  | _ => false

/-- A statement that neither opens a block nor goes on with one nor closes one. -/
def isSimple : Statement → Bool
  | function .. | whileLoop .. | ifBranch .. | elseBranch _ | close _ | raw _ | finish => false
  | _ => true

/-- The braces that a statement is written with. -/
def braces : Statement → List UInt8
  | function .. | whileLoop .. | ifBranch .. => [Piece.opening]
  | close _ => [Piece.closing]
  | elseBranch _ => [Piece.closing, Piece.opening]
  | _ => []

/-- What a statement is written as, said of its braces: the head of a block ends with the
only brace that the translator puts there, and the end of a block and the turn to its
other branch are always the same. -/
def Shapes (ps : List Piece) : Statement → Prop
  | function .. | whileLoop .. | ifBranch .. =>
    ∃ head, ps = head ++ [.own ") \x7b"] ∧ Piece.ownBraces head = []
  | close _ => ps = [.own "\x7d"]
  | elseBranch _ => ps = [.own "\x7d else \x7b"]
  | _ => Piece.ownBraces ps = []

theorem ownBraces_of_shapes {ps : List Piece} {s : Statement} (h : s.Shapes ps) :
    Piece.ownBraces ps = s.braces := by
  cases s with
  | function | whileLoop | ifBranch =>
    obtain ⟨head, rfl, hhead⟩ := h
    rw [Piece.ownBraces_append, hhead]
    rfl
  | close | elseBranch =>
    obtain rfl := h
    rfl
  | declare | print | call | assign | raw | giveBack | forLoop | classHead | broken | stray
  | finish => exact h

end Statement

/-- A sequence of statements whose blocks nest. -/
inductive Body : List Statement → Prop where
  | nil : Body []
  | simple {s : Statement} {r : List Statement} (h : s.isSimple = true) (rest : Body r) :
      Body (s :: r)
  | function {keyword : Token} {name : Option Token} {params : List Token}
      {fault : Option Misplaced} {b r : List Statement} (stop : Token) (inner : Body b)
      (rest : Body r) : Body (.function keyword name params fault :: (b ++ .close stop :: r))
  | whileLoop {keyword : Token} {c : Condition} {b r : List Statement} (stop : Token)
      (inner : Body b) (rest : Body r) : Body (.whileLoop keyword c :: (b ++ .close stop :: r))
  | ifBranch {keyword : Token} {c : Condition} {b r : List Statement} (stop : Token)
      (inner : Body b) (rest : Body r) : Body (.ifBranch keyword c :: (b ++ .close stop :: r))
  | ifElse {keyword : Token} {c : Condition} {b b' r : List Statement} (turn stop : Token)
      (inner : Body b) (other : Body b') (rest : Body r) :
      Body (.ifBranch keyword c :: (b ++ .elseBranch turn :: (b' ++ .close stop :: r)))

/-- Braces that match one to one. -/
inductive Matched : List UInt8 → Prop where
  | nil : Matched []
  | pair {a b : List UInt8} (inner : Matched a) (rest : Matched b) :
      Matched (Piece.opening :: (a ++ Piece.closing :: b))

/-- **The braces of a body match.** -/
theorem Body.matched {b : List Statement} (h : Body b) : Matched (b.flatMap (·.braces)) := by
  induction h with
  | nil => exact .nil
  | simple h _ ih =>
    rename_i s r _
    have hnone : s.braces = [] := by cases s <;> first | rfl | exact nomatch h
    rw [List.flatMap_cons, hnone]
    exact ih
  | function stop _ _ inner rest | whileLoop stop _ _ inner rest | ifBranch stop _ _ inner rest =>
    rw [List.flatMap_cons, List.flatMap_append, List.flatMap_cons]
    exact .pair inner rest
  | ifElse turn stop _ _ _ inner other rest =>
    rw [List.flatMap_cons, List.flatMap_append, List.flatMap_cons, List.flatMap_append,
      List.flatMap_cons]
    exact .pair inner (.pair other rest)

/-- Statements that close the open blocks, the innermost first, and are a body behind
the last one. -/
inductive Closes : List BlockKind → List Statement → Prop where
  | done {b : List Statement} (body : Body b) : Closes [] b
  | close {k : BlockKind} {st : List BlockKind} {b r : List Statement} (stop : Token)
      (inner : Body b) (rest : Closes st r) : Closes (k :: st) (b ++ .close stop :: r)
  | turn {st : List BlockKind} {b r : List Statement} (turn : Token) (inner : Body b)
      (rest : Closes (.elseBranch :: st) r) :
      Closes (.ifBranch :: st) (b ++ .elseBranch turn :: r)

namespace Closes

/-- What can stand in front of every body can stand in front of what closes blocks. -/
theorem append {st : List BlockKind} {r : List Statement} (h : Closes st r) (a : List Statement)
    (ha : ∀ b, Body b → Body (a ++ b)) : Closes st (a ++ r) := by
  cases h with
  | done body => exact .done (ha _ body)
  | close stop inner rest =>
    rw [← List.append_assoc]
    exact .close stop (ha _ inner) rest
  | turn t inner rest =>
    rw [← List.append_assoc]
    exact .turn t (ha _ inner) rest

/-- A whole block in front of what closes blocks. -/
theorem block {s : Statement} {b : List Statement} {stop : Token} {st : List BlockKind}
    {r : List Statement} (rest : Closes st r)
    (hbody : ∀ r, Body r → Body (s :: (b ++ .close stop :: r))) :
    Closes st (s :: (b ++ .close stop :: r)) := by
  have h := rest.append (s :: (b ++ [.close stop])) fun r hr => by simpa using hbody r hr
  simpa using h

end Closes

/-- How a statement changes the kinds of the open blocks. -/
inductive Turns : Statement → List BlockKind → List BlockKind → Prop where
  | function {keyword : Token} {name : Option Token} {params : List Token}
      {fault : Option Misplaced} (st : List BlockKind) :
      Turns (.function keyword name params fault) st (.function :: st)
  | whileLoop {keyword : Token} {c : Condition} (st : List BlockKind) :
      Turns (.whileLoop keyword c) st (.whileLoop :: st)
  | ifBranch {keyword : Token} {c : Condition} (st : List BlockKind) :
      Turns (.ifBranch keyword c) st (.ifBranch :: st)
  | elseBranch {keyword : Token} (st : List BlockKind) :
      Turns (.elseBranch keyword) (.ifBranch :: st) (.elseBranch :: st)
  | close {keyword : Token} (k : BlockKind) (st : List BlockKind) :
      Turns (.close keyword) (k :: st) st
  | raw {t : Token} (st : List BlockKind) : Turns (.raw t) st st
  | simple {s : Statement} (h : s.isSimple = true) (st : List BlockKind) : Turns s st st
  | finish : Turns .finish [] []

/-- **A statement in front of what closes the blocks that it leaves open** closes those
that it finds open. -/
theorem Turns.closes {s : Statement} {st st' : List BlockKind} (h : Turns s st st')
    (hs : s ≠ .finish) (hraw : s.isRaw = false) {r : List Statement} (hr : Closes st' r) :
    Closes st (s :: r) := by
  cases h with
  | function st =>
    cases hr with
    | close stop inner rest => exact rest.block fun r hr => .function stop inner hr
  | whileLoop st =>
    cases hr with
    | close stop inner rest => exact rest.block fun r hr => .whileLoop stop inner hr
  | @ifBranch keyword c st =>
    cases hr with
    | close stop inner rest => exact rest.block fun r hr => .ifBranch stop inner hr
    | @turn _ b _ t inner rest =>
      -- Behind an else only an end can come, since the block is no longer that of an if.
      cases rest with
      | @close _ _ b' r stop other rest =>
        have hbody (r : List Statement) (hr : Body r) :
            Body (.ifBranch keyword c :: ((b ++ .elseBranch t :: b') ++ .close stop :: r)) := by
          simpa using Body.ifElse t stop inner other hr
        simpa using rest.block hbody
  | elseBranch st => exact .turn _ .nil hr
  | close k st => exact .close _ .nil hr
  | raw st => exact nomatch hraw
  | simple h st => exact hr.append [s] fun b hb => .simple h hb
  | finish => exact absurd rfl hs

/-- Raw text leaves the blocks alone. -/
theorem Turns.eq_of_isRaw {s : Statement} {st st' : List BlockKind} (h : Turns s st st')
    (hraw : s.isRaw = true) : st' = st := by
  cases h with
  | function | whileLoop | ifBranch | elseBranch | close => exact nomatch hraw
  | raw | simple | finish => rfl

/-- At the end of the input no block is open. -/
theorem Turns.eq_nil_of_finish {st st' : List BlockKind} (h : Turns .finish st st') : st = [] := by
  cases h with
  | simple h => exact nomatch h
  | finish => rfl

namespace Desk

variable (src : Source.Tokens) {style : Style}

/-- The kinds of the open blocks. -/
def kinds (desk : Desk) : List BlockKind := desk.blocks.map (·.kind)

/-- Declaring a variable leaves the blocks alone. -/
theorem kinds_declare (desk : Desk) (name : Token) (quoted : Bool) (value : Expr) :
    (desk.declare src style name quoted value).desk.kinds = desk.kinds := by
  rw [declare]
  dsimp only
  split <;> rfl

theorem kinds_function (desk : Desk) (keyword : Token) (name : Option Token)
    (params : List Token) (fault : Option Misplaced) :
    (desk.function src style keyword name params fault).desk.kinds = .function :: desk.kinds :=
  congrArg _ (blocks_function src style desk keyword name params fault)

/-- **Each statement turns the open blocks in its own way** if it is written without an
error. -/
theorem turns_write (hstrict : style.strict = true) (desk : Desk) (s : Statement)
    (h : NoErrors (desk.write src style s).reports) :
    Turns s desk.kinds (desk.write src style s).desk.kinds := by
  cases s with
  | declare name quoted value =>
    rw [write, kinds_declare]
    exact .simple rfl _
  | function keyword name params fault =>
    rw [write, kinds_function]
    exact .function _
  | close keyword =>
    rw [write, close] at h ⊢
    rw [kinds]
    cases hblocks : desk.blocks with
    | nil =>
      rw [hblocks] at h
      dsimp only at h
      rw [if_pos hstrict] at h
      exact absurd h (not_noErrors_error _ _ _ _)
    | cons b outer => exact .close b.kind _
  | elseBranch keyword =>
    rw [write, otherwise] at h ⊢
    split at h
    · rename_i opened outer hblocks
      rw [kinds, hblocks]
      exact .elseBranch _
    · rw [if_pos hstrict] at h
      exact absurd h (not_noErrors_error _ _ _ _)
  | finish =>
    rw [write, finish] at h ⊢
    rw [kinds]
    dsimp only at h
    rw [if_pos hstrict] at h
    cases hblocks : desk.blocks with
    | nil => exact .finish
    | cons b outer =>
      rw [hblocks] at h
      exact absurd (h _ List.mem_cons_self).symm Bool.false_ne_true
  | whileLoop keyword c => exact .whileLoop _
  | ifBranch keyword c => exact .ifBranch _
  | raw t => exact .raw _
  | giveBack value => cases value <;> exact .simple rfl _
  | print | call | assign | forLoop | classHead | broken | stray => exact .simple rfl _

/-- Pieces around a part without braces. -/
theorem ownBraces_wrapPieces {d : Option (List Piece)} (hd : ∀ ps ∈ d, Piece.ownBraces ps = [])
    {before behind : List Piece} (hbefore : Piece.ownBraces before = [])
    (hbehind : Piece.ownBraces behind = []) :
    Piece.ownBraces (wrapPieces d before behind) = [] := by
  cases d with
  | none => rfl
  | some ps =>
    rw [wrapPieces, Piece.ownBraces_append, Piece.ownBraces_append, hbefore, hbehind, hd ps rfl]
    rfl

/-- The head of a loop or a condition, once the condition is written. -/
theorem shapes_wrapPieces {d : Option (List Piece)} (hd : ∀ ps ∈ d, Piece.ownBraces ps = [])
    {text : Text} (htext : d.map Piece.render = some text) {before : List Piece}
    (hbefore : Piece.ownBraces before = []) :
    ∃ head, wrapPieces d before [.own ") \x7b"] = head ++ [.own ") \x7b"] ∧
      Piece.ownBraces head = [] := by
  obtain ⟨ps, rfl, -⟩ := Option.map_eq_some_iff.1 htext
  refine ⟨before ++ ps, (List.append_assoc ..).symm, ?_⟩
  rw [Piece.ownBraces_append, hbefore, hd ps rfl]
  rfl

theorem shapes_functionPieces (desk : Desk) (keyword : Token) {name : Option Token}
    (params : List Token) {fault : Option Misplaced} (hread : name = none → fault.isSome = true)
    (h : NoErrors (desk.function src style keyword name params fault).reports) :
    ∃ head, desk.functionPieces src style keyword name params fault = head ++ [.own ") \x7b"] ∧
      Piece.ownBraces head = [] := by
  rw [function.eq_def] at h
  cases fault with
  | some fault =>
    cases name with
    | none => exact absurd h (Lexicon.not_noErrors_misplaced _ _ _)
    | some name => exact absurd (noErrors_append.1 h).2 (Lexicon.not_noErrors_misplaced _ _ _)
  | none =>
    cases name with
    | none => exact absurd (hread rfl) Bool.false_ne_true
    | some name =>
      refine ⟨_, (List.append_assoc ..).symm, ?_⟩
      rw [Piece.ownBraces_append, Piece.ownBraces_commaJoin]
      · rfl
      · intro ps hps
        obtain ⟨_, -, rfl⟩ := List.mem_map.1 hps
        rfl

/-- **Each statement has its shape** if it is written without an error. -/
theorem shapes_pieces (hstrict : style.strict = true) (desk : Desk) (s : Statement)
    (hread : s ≠ .finish → s.IsRead) (h : NoErrors (desk.write src style s).reports) :
    s.Shapes (desk.pieces src style s) := by
  have hexpr := Lexicon.ownBraces_exprPieces ⟨src, desk.names⟩
  have hcondition (c : Condition) := Lexicon.ownBraces_conditionPieces ⟨src, desk.names⟩ c
  cases s with
  | declare name quoted value =>
    refine ownBraces_wrapPieces ?_ rfl rfl
    cases quoted with
    | false => exact hexpr value
    | true =>
      intro ps hps
      obtain ⟨_, -, rfl⟩ := Option.map_eq_some_iff.1 hps
      rfl
  | print value => exact ownBraces_wrapPieces (hexpr value) rfl rfl
  | function keyword name params fault =>
    exact desk.shapes_functionPieces src keyword params (hread (by simp)) h
  | call callee => exact ownBraces_wrapPieces (Lexicon.ownBraces_operandPieces _ callee) rfl rfl
  | assign name value => exact ownBraces_wrapPieces (hexpr value) rfl rfl
  | raw t => rfl
  | close keyword =>
    rw [write, close] at h
    split at h
    · rename_i hblocks
      rw [pieces, hblocks]
      rfl
    · rw [if_pos hstrict] at h
      exact absurd h (not_noErrors_error _ _ _ _)
  | whileLoop keyword c =>
    obtain ⟨text, htext⟩ := Lexicon.condition_text_of_noErrors _ (hread (by simp)) h
    rw [← Lexicon.render_conditionPieces] at htext
    exact shapes_wrapPieces (hcondition c) htext rfl
  | ifBranch keyword c =>
    obtain ⟨text, htext⟩ := Lexicon.condition_text_of_noErrors _ (hread (by simp)) h
    rw [← Lexicon.render_conditionPieces] at htext
    exact shapes_wrapPieces (hcondition c) htext rfl
  | elseBranch keyword =>
    rw [write, otherwise] at h
    split at h
    · rename_i hblocks
      rw [pieces, hblocks]
      rfl
    · rw [if_pos hstrict] at h
      exact absurd h (not_noErrors_error _ _ _ _)
  | giveBack value =>
    cases value with
    | none => rfl
    | some value => exact ownBraces_wrapPieces (hexpr value) rfl rfl
  | forLoop | classHead | broken | stray => rfl
  | finish =>
    show Piece.ownBraces (if style.banner then [.own Style.closingBanner] else []) = []
    split <;> rfl

/-- **A run without errors keeps the blocks in order**: its statements close the blocks
that are open when it starts, and each has its shape. -/
theorem closes_writeAll (hstrict : style.strict = true) {desk : Desk} {ps : List Placed}
    {body : List Statement} (hps : ps.map (·.statement) = body ++ [.finish])
    (hread : ∀ s ∈ body, s.IsRead)
    (h : NoErrors ((desk.writeAll src style ps).flatMap (·.reports))) :
    Closes desk.kinds (body.filter (!·.isRaw)) ∧
      List.Forall₂ (fun s pieces => s.Shapes pieces) (ps.map (·.statement))
        (desk.allPieces src style ps) := by
  induction ps generalizing desk body with
  | nil => exact nomatch (List.append_eq_nil_iff.1 hps.symm).2
  | cons p r ih =>
    rw [writeAll, List.flatMap_cons] at h
    obtain ⟨hfirst, hrest⟩ := noErrors_append.1 h
    have hturns := desk.turns_write src hstrict p.statement hfirst
    have hshapes (hp : p.statement ≠ .finish → p.statement.IsRead) :=
      desk.shapes_pieces src hstrict p.statement hp hfirst
    rw [List.map_cons] at hps ⊢
    cases body with
    | nil =>
      obtain ⟨hstatement, hr⟩ := List.cons_eq_cons.1 hps
      obtain rfl := List.map_eq_nil_iff.1 hr
      refine ⟨?_, .cons (hshapes (absurd hstatement)) .nil⟩
      rw [hstatement] at hturns
      rw [hturns.eq_nil_of_finish]
      exact .done .nil
    | cons s body =>
      obtain ⟨rfl, htail⟩ := List.cons_eq_cons.1 hps
      obtain ⟨hp, hbody⟩ := List.forall_mem_cons.1 hread
      obtain ⟨hcloses, hall⟩ := ih htail hbody hrest
      refine ⟨?_, .cons (hshapes fun _ => hp) hall⟩
      rw [List.filter_cons]
      cases hraw : p.statement.isRaw with
      | true => exact hturns.eq_of_isRaw hraw ▸ hcloses
      | false =>
        have hne : p.statement ≠ .finish := fun heq => by rw [heq] at hp; exact hp
        exact hturns.closes hne hraw hcloses

end Desk

/-- Raw text has no brace that the translator wrote. -/
theorem flatMap_braces_filter (body : List Statement) :
    (body.filter (!·.isRaw)).flatMap (·.braces) = body.flatMap (·.braces) := by
  induction body with
  | nil => rfl
  | cons s r ih =>
    rw [List.filter_cons, List.flatMap_cons, ← ih]
    cases s <;> rfl

theorem flatMap_ownBraces {ss : List Statement} {pss : List (List Piece)}
    (h : List.Forall₂ (fun s ps => s.Shapes ps) ss pss) :
    pss.flatMap Piece.ownBraces = ss.flatMap (·.braces) := by
  induction h with
  | nil => rfl
  | cons hs _ ih => rw [List.flatMap_cons, List.flatMap_cons, ih, Statement.ownBraces_of_shapes hs]

/-- The statements of a text. -/
def statementsOf (file : FileId) (content : Text) : List Statement :=
  (TokenList.ofList file (tokenize file content).tokens).statements.map (·.statement)

/-- **Without errors blocks nest.**  The statements of a text up to its end form a body
once raw text is left aside; the heads, turns and ends of blocks have their shapes; and
the braces that the translator writes match one to one. -/
theorem blocks_nest_of_noErrors (file : FileId) (content : Text) (style : Style)
    (hstrict : style.strict = true)
    (h : NoErrors (transpile file (some content) style (tokenize file content).tokens).reports) :
    (∃ body, statementsOf file content = body ++ [.finish] ∧ Body (body.filter (!·.isRaw))) ∧
      List.Forall₂ (fun s ps => s.Shapes ps) (statementsOf file content)
        (statementPieces file (some content) style (tokenize file content).tokens) ∧
      (transpile file (some content) style (tokenize file content).tokens).fragments =
        (if style.prelude then [Style.openingBanner] else []) ++
          (statementPieces file (some content) style (tokenize file content).tokens).map
            Piece.render ∧
      Matched ((statementPieces file (some content) style
        (tokenize file content).tokens).flatMap Piece.ownBraces) := by
  obtain ⟨tokens, last, -, hlist⟩ := TokenList.ofList_tokenize file content
  obtain ⟨body, hbody, hread⟩ := isRead_readStatements tokens
  have hstatements : statementsOf file content = body ++ [.finish] := by
    rw [statementsOf, hlist]
    exact hbody
  rw [transpile, hlist] at h
  obtain ⟨hcloses, hshapes⟩ := Desk.closes_writeAll ⟨some content, last⟩ hstrict hbody hread
    (Diagnostic.noErrors_of_distinct h)
  have hpieces : statementPieces file (some content) style (tokenize file content).tokens =
      Desk.allPieces ⟨some content, last⟩ style {} (readStatements false tokens) := by
    rw [statementPieces, hlist]
    rfl
  have hnest : Body (body.filter (!·.isRaw)) := by
    cases hcloses with
    | done hnest => exact hnest
  refine ⟨⟨body, hstatements, hnest⟩, ?_, fragments_transpile .., ?_⟩
  · rw [hpieces, hstatements, ← hbody]
    exact hshapes
  · rw [hpieces, flatMap_ownBraces hshapes, hbody, List.flatMap_append, ← flatMap_braces_filter]
    exact (List.append_nil _).symm ▸ hnest.matched

/-- A loop and an else inside a condition inside a function, with braces in a string, in a
name and in raw text. -/
def nestedText : Text :=
  "تابع f ( x )\nإذا x == 1\nطالما x < 2\nاطبع \"\x7d\"\nانتهى\nوإلا\nشيء y\x7b = 1\n-\x7b \x7b\x7d \x7d-\nانتهى\nانتهى"

theorem blocks_nest_of_noErrors_nested :
    NoErrors (transpile 0 (some nestedText) {} (tokenize 0 nestedText).tokens).reports ∧
      (∃ body, statementsOf 0 nestedText = body ++ [.finish] ∧ Body (body.filter (!·.isRaw))) ∧
      Matched ((statementPieces 0 (some nestedText) {}
        (tokenize 0 nestedText).tokens).flatMap Piece.ownBraces) := by
  have hnone : (transpile 0 (some nestedText) {} (tokenize 0 nestedText).tokens).reports = [] := by
    cbv
  have h : NoErrors (transpile 0 (some nestedText) {} (tokenize 0 nestedText).tokens).reports := by
    rw [hnone]
    decide
  obtain ⟨hbody, -, -, hmatched⟩ := blocks_nest_of_noErrors 0 nestedText {} rfl h
  exact ⟨h, hbody, hmatched⟩

end Tarjuman
