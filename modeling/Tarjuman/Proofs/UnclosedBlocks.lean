/-
# Blocks that are never closed

Which blocks are open is decided by the first tokens of the statements alone (`Block.turn`),
and the writer keeps its blocks accordingly (`Desk.blocks_after`).  Those that are open at the
end of the input are reported there, the innermost first.  All these findings stand at the same
place and say the same of blocks of one kind, but for their notes, and findings that say the
same are kept once whatever their notes are.  So of several open blocks of one kind only the
innermost is reported (`unclosed_reports_innermost`).
-/

import Mathlib
import Tarjuman.Proofs.BagLimit
import Tarjuman.Proofs.ReportOrigins
import Tarjuman.Proofs.SilentStatements
import Tarjuman.Proofs.SpellingChoice

namespace Tarjuman

/-- The keyword that opens a block. -/
def BlockKind.opener : BlockKind → Kind
  | function => .kwFun
  | whileLoop => .kwWhile
  | ifBranch | elseBranch => .kwIf

namespace Block

/-- The block of a condition becomes that of its other branch. -/
def otherwise : List Block → List Block
  | ⟨.ifBranch, opened⟩ :: outer => ⟨.elseBranch, opened⟩ :: outer
  | bs => bs

/-- The open blocks, the innermost first, behind a statement that starts with a token. -/
def turn (bs : List Block) (t : Token) : List Block :=
  match t.kind with
  | .kwFun => ⟨.function, t.span⟩ :: bs
  | .kwWhile => ⟨.whileLoop, t.span⟩ :: bs
  | .kwIf => ⟨.ifBranch, t.span⟩ :: bs
  | .kwElse => otherwise bs
  | .kwEnd => bs.tail
  | _ => bs

/-- What is reported about a block that is not closed. -/
def notClosed (finish : Token) (b : Block) : Diagnostic :=
  (Diagnostic.error .unclosedBlock finish.span (b.kind.name ++ " block is not closed")).withNote
    b.opened "opened here"

/-- The innermost block of each kind, the innermost first. -/
def innermost : List Block → List Block
  | [] => []
  | b :: outer => b :: (innermost outer).filter (·.kind ≠ b.kind)

end Block

/-- The blocks that are open at the end of the input, the innermost first. -/
def TokenList.openBlocks (ts : TokenList) : List Block :=
  (ts.statements.filterMap (·.tokens.head?)).foldl Block.turn []

/-- The findings about blocks that are not closed. -/
def Diagnostic.unclosed (ds : List Diagnostic) : List Diagnostic :=
  ds.filter (·.code = .unclosedBlock)

/-! ## One of each kind -/

namespace Block

theorem innermost_sublist (bs : List Block) : (innermost bs).Sublist bs := by
  induction bs with
  | nil => exact List.Sublist.refl _
  | cons b bs ih => exact (List.filter_sublist.trans ih).cons_cons b

theorem pairwise_kind_innermost (bs : List Block) :
    (innermost bs).Pairwise (·.kind ≠ ·.kind) := by
  induction bs with
  | nil => exact .nil
  | cons b bs ih =>
    refine List.pairwise_cons.2 ⟨fun c hc => ?_, ih.filter _⟩
    exact (of_decide_eq_true (List.mem_filter.1 hc).2).symm

theorem innermost_eq_self {bs : List Block} (h : (bs.map (·.kind)).Nodup) : innermost bs = bs := by
  induction bs with
  | nil => rfl
  | cons b bs ih =>
    obtain ⟨hb, hbs⟩ := List.nodup_cons.1 h
    rw [innermost, ih hbs, List.filter_eq_self.2]
    intro c hc
    exact decide_eq_true fun hkind => hb (List.mem_map.2 ⟨c, hc, hkind⟩)

/-- None is left out exactly if there is one of each kind. -/
theorem length_innermost_eq_iff (bs : List Block) :
    (innermost bs).length = bs.length ↔ (bs.map (·.kind)).Nodup := by
  constructor
  · intro h
    have heq := (innermost_sublist bs).eq_of_length h
    rw [← heq]
    exact List.pairwise_map.2 (pairwise_kind_innermost bs)
  · intro h
    rw [innermost_eq_self h]

/-- Two of the findings say the same if the blocks are of one kind. -/
theorem same_notClosed (finish : Token) (a b : Block) :
    (a.notClosed finish).same (b.notClosed finish) = decide (a.kind = b.kind) := by
  have hname : ∀ k k' : BlockKind, k.name = k'.name → k = k' := by
    intro k k'
    cases k <;> cases k' <;> decide
  have hmessage : (a.notClosed finish).message = (b.notClosed finish).message ↔
      a.kind = b.kind := by
    refine ⟨fun h => hname _ _ (List.append_cancel_right h), fun h => ?_⟩
    rw [notClosed, notClosed, h]
    rfl
  refine decide_eq_decide.2 ⟨fun h => hmessage.1 h.2.2.2, fun h => ⟨rfl, rfl, rfl, ?_⟩⟩
  exact hmessage.2 h

theorem any_same_notClosed (finish : Token) (b : Block) (seen : List Block) :
    (seen.map (notClosed finish)).any (Diagnostic.same (b.notClosed finish)) =
      seen.any fun c => decide (b.kind = c.kind) := by
  rw [List.any_map]
  exact congrArg seen.any (funext fun c => same_notClosed finish b c)

/-- **Of several blocks of one kind the first is reported**, if none was `seen` before. -/
theorem distinctFrom_notClosed (finish : Token) (seen bs : List Block) :
    Diagnostic.distinctFrom (seen.map (notClosed finish)) (bs.map (notClosed finish)) =
      ((innermost bs).filter fun b => !seen.any fun c => decide (b.kind = c.kind)).map
        (notClosed finish) := by
  induction bs generalizing seen with
  | nil => rfl
  | cons b bs ih =>
    rw [List.map_cons, Diagnostic.distinctFrom, any_same_notClosed, innermost, List.filter_cons]
    cases hseen : seen.any fun c => decide (b.kind = c.kind) with
    | true =>
      -- what is of the kind of `b` is left out on account of `seen` anyway
      rw [if_pos rfl, ih, if_neg (by simp), List.filter_filter]
      refine congrArg (List.map _) (List.filter_congr fun c _ => ?_)
      by_cases hkind : c.kind = b.kind
      · rw [hkind, hseen]
        rfl
      · simp [hkind]
    | false =>
      rw [if_neg (by simp), if_pos (by rfl), List.map_cons, ← List.map_cons, ih,
        List.filter_filter]
      refine congrArg (_ :: ·) (congrArg (List.map _) (List.filter_congr fun c _ => ?_))
      rw [List.any_cons, Bool.not_or, Bool.and_comm]
      simp

theorem distinct_notClosed (finish : Token) (bs : List Block) :
    Diagnostic.distinct (bs.map (notClosed finish)) = (innermost bs).map (notClosed finish) :=
  (distinctFrom_notClosed finish [] bs).trans
    (congrArg _ (List.filter_eq_self.2 fun _ _ => rfl))

end Block

/-! ## The writer's blocks -/

namespace Desk

variable (src : Source.Tokens) (style : Style)

theorem value_readFunction (keyword : Token) (ts : List Token) :
    ∃ name params fault,
      (readFunction keyword ts).value = .function keyword name params fault := by
  rw [readFunction]
  split
  · exact ⟨_, _, _, rfl⟩
  · split
    · exact ⟨_, _, _, rfl⟩
    · split
      · exact ⟨_, _, _, rfl⟩
      · split <;> exact ⟨_, _, _, rfl⟩

theorem blocks_otherwise (desk : Desk) (keyword : Token) :
    (desk.otherwise style keyword).desk.blocks = Block.otherwise desk.blocks := by
  rw [Desk.otherwise]
  split
  · rename_i hblocks
    rw [hblocks]
    rfl
  · rename_i hnot
    have hsame : Block.otherwise desk.blocks = desk.blocks := by
      rw [Block.otherwise]
      exact hnot
    rw [hsame]
    split <;> rfl

/-- **One statement turns the blocks as its first token says.** -/
theorem blocks_readStatement (desk : Desk) (trap : Bool) (t : Token) (ts : List Token) :
    (desk.write src style (readStatement trap t ts).value).desk.blocks =
      Block.turn desk.blocks t := by
  rw [readStatement]
  split
  · rename_i hkind
    rw [Block.turn, hkind, readVariable]
    split
    · rfl
    · split
      · rfl
      · rw [write, declare]
        dsimp only
        split <;> rfl
  · rename_i hkind
    rw [Block.turn, hkind, readPrint]
    split <;> rfl
  · rename_i hkind
    obtain ⟨name, params, fault, hvalue⟩ := value_readFunction t ts
    rw [Block.turn, hkind, hvalue, write, blocks_function]
  · rename_i hkind
    rw [Block.turn, hkind]
    cases ts with
    | nil => rfl
    | cons u r =>
      rw [readCallOrAssign]
      split
      · rfl
      · split <;> rfl
  · rename_i hkind
    rw [Block.turn, hkind]
    rfl
  · rename_i hkind
    rw [Block.turn, hkind, write, close]
    cases hblocks : desk.blocks with
    | nil =>
      dsimp only
      split <;> exact hblocks
    | cons b outer => rfl
  · rename_i hkind
    rw [Block.turn, hkind]
    rfl
  · rename_i hkind
    rw [Block.turn, hkind]
    rfl
  · rename_i hkind
    rw [Block.turn, hkind]
    exact blocks_otherwise style desk t
  · rename_i hkind
    rw [Block.turn, hkind]
    split <;> rfl
  · rename_i hkind
    rw [Block.turn, hkind]
    rfl
  · rename_i hkind
    rw [Block.turn, hkind]
    rfl
  · rw [Block.turn]
    split <;> first | rfl | contradiction

/-- A statement starts with the token it was read for. -/
theorem head?_own (trap : Bool) (t : Token) (ts : List Token) :
    ((t :: ts).take ((t :: ts).length - (readStatement trap t ts).rest.length)).head? = some t := by
  have hle := (readStatement trap t ts).le
  rw [List.length_cons, Nat.succ_sub hle, List.take_succ_cons]
  rfl

theorem readStatements_ne_nil (trap : Bool) (ts : List Token) : readStatements trap ts ≠ [] := by
  rw [readStatements.eq_def]
  split
  · exact List.cons_ne_nil _ _
  · exact List.cons_ne_nil _ _

/-- **The blocks at the end of the input** are those that the first tokens leave open. -/
theorem blocks_after (desk : Desk) (ts : List Token) :
    (desk.after src style (readStatements false ts).dropLast).blocks =
      ((readStatements false ts).filterMap (·.tokens.head?)).foldl Block.turn desk.blocks := by
  fun_induction readStatements false ts generalizing desk with
  | case1 => rfl
  | case2 t r s ih =>
    rw [List.dropLast_cons_of_ne_nil (readStatements_ne_nil false _), after, List.foldl_cons,
      List.filterMap_cons_some (f := fun p : Placed => p.tokens.head?) (head?_own false t r),
      List.foldl_cons, ← blocks_readStatement]
    exact ih _

/-- What is reported about blocks is reported at the end of the input. -/
theorem unclosed_writeAll {style : Style} (hstrict : style.strict = true) (desk : Desk)
    (ts : List Token) :
    Diagnostic.unclosed ((desk.writeAll src style (readStatements false ts)).flatMap (·.reports)) =
      (desk.after src style (readStatements false ts).dropLast).blocks.map
        (Block.notClosed src.finish) := by
  fun_induction readStatements false ts generalizing desk with
  | case1 =>
    rw [writeAll, writeAll, List.flatMap_singleton, write, finish, if_pos hstrict]
    exact List.filter_eq_self.2 (List.forall_mem_map.2 fun _ _ => rfl)
  | case2 t r s ih =>
    have hread := isRead_readStatement t r
    have hfinish : (readStatement false t r).value ≠ .finish := fun h => by
      rw [h] at hread
      exact hread
    have hnone :
        Diagnostic.unclosed (desk.write src style (readStatement false t r).value).reports = [] := by
      refine List.filter_eq_nil_iff.2 fun d hd => ?_
      have hlisted := desk.write_listed src style hfinish d hd
      intro hcode
      rw [of_decide_eq_true hcode] at hlisted
      exact absurd hlisted (by decide)
    rw [writeAll, List.flatMap_cons, Diagnostic.unclosed, List.filter_append,
      List.dropLast_cons_of_ne_nil (readStatements_ne_nil false _), after, List.foldl_cons]
    rw [Diagnostic.unclosed] at hnone
    rw [hnone, List.nil_append]
    exact ih _

end Desk

/-- Every block was opened by its keyword, at the head of a statement. -/
theorem Block.opened_turn {ts : List Token} {t : Token} (ht : t ∈ ts) {bs : List Block}
    (h : ∀ b ∈ bs, ∃ t ∈ ts, t.kind = b.kind.opener ∧ b.opened = t.span) :
    ∀ b ∈ turn bs t, ∃ t ∈ ts, t.kind = b.kind.opener ∧ b.opened = t.span := by
  rw [turn]
  split
  · rename_i hkind
    exact List.forall_mem_cons.2 ⟨⟨t, ht, hkind, rfl⟩, h⟩
  · rename_i hkind
    exact List.forall_mem_cons.2 ⟨⟨t, ht, hkind, rfl⟩, h⟩
  · rename_i hkind
    exact List.forall_mem_cons.2 ⟨⟨t, ht, hkind, rfl⟩, h⟩
  · rw [otherwise.eq_def]
    split
    · exact List.forall_mem_cons.2 (List.forall_mem_cons.1 h)
    · exact h
  · exact fun b hb => h b (List.mem_of_mem_tail hb)
  · exact h

theorem Block.opened_foldl {ts us : List Token} (hus : ∀ t ∈ us, t ∈ ts) {bs : List Block}
    (h : ∀ b ∈ bs, ∃ t ∈ ts, t.kind = b.kind.opener ∧ b.opened = t.span) :
    ∀ b ∈ us.foldl turn bs, ∃ t ∈ ts, t.kind = b.kind.opener ∧ b.opened = t.span := by
  induction us generalizing bs with
  | nil => exact h
  | cons u us ih =>
    obtain ⟨hu, hus⟩ := List.forall_mem_cons.1 hus
    exact ih hus (opened_turn hu h)

theorem Diagnostic.unclosed_distinct (ds : List Diagnostic) :
    unclosed (distinct ds) = distinct (unclosed ds) := by
  refine filter_distinctFrom (fun a b h => ?_) [] ds
  simp only [same, decide_eq_true_eq] at h
  rw [h.1]

/-- What the findings say about the blocks that are open at the end of the input. -/
structure TokenList.UnclosedReported (ts : TokenList) (ds : List Diagnostic) : Prop where
  /-- Each block was opened by its keyword. -/
  opened : ∀ b ∈ ts.openBlocks, ∃ t ∈ ts.body, t.kind = b.kind.opener ∧ b.opened = t.span
  /-- There is one finding for the innermost block of each kind, with a note where it was
  opened, and the findings come in the order of the blocks. -/
  innermost : Diagnostic.unclosed ds = (Block.innermost ts.openBlocks).map (·.notClosed ts.finish)
  /-- There are as many findings as blocks exactly if no two blocks are of one kind. -/
  count_iff : (Diagnostic.unclosed ds).length = ts.openBlocks.length ↔
    (ts.openBlocks.map (·.kind)).Nodup
  /-- In this case there is one for each block. -/
  each : (ts.openBlocks.map (·.kind)).Nodup →
    Diagnostic.unclosed ds = ts.openBlocks.map (·.notClosed ts.finish)

/-- **Of the open blocks of one kind the innermost is reported.**  The blocks on the writer's
desk at the end of the input are those that the first tokens of the statements leave open; and
where there is room for all findings, they say of the blocks what `UnclosedReported` says. -/
theorem unclosed_reports_innermost (file : FileId) (content : Text) {style : Style}
    (hstrict : style.strict = true) (n : Int) :
    ∃ ts script, TokenList.ofList file (tokenize file content).tokens = ts ∧
      transpile? file (some content) style (tokenize file content).tokens = some script ∧
      (Desk.after ⟨some content, ts.finish⟩ style {} ts.statements.dropLast).blocks =
        ts.openBlocks ∧
      (script.reports.length ≤ Bag.capacity n →
        ts.UnclosedReported (Bag.ofList n script.reports).toList) := by
  obtain ⟨body, last, htokens, hcut⟩ := TokenList.ofList_tokenize file content
  have hends : isEndless file (tokenize file content).tokens = false :=
    not_isEndless_of_trap (by rw [hcut])
  have hstack := Desk.blocks_after ⟨some content, last⟩ style {} body
  refine ⟨_, _, hcut, by rw [transpile?, hends]; rfl, hstack, fun hroom => ?_⟩
  have hreports : Diagnostic.unclosed
      (transpile file (some content) style (tokenize file content).tokens).reports =
        (Block.innermost (TokenList.openBlocks ⟨body, last, false⟩)).map (·.notClosed last) := by
    rw [transpile, hcut, Diagnostic.unclosed_distinct]
    dsimp only
    rw [TokenList.statements, Desk.unclosed_writeAll _ hstrict, Block.distinct_notClosed, hstack]
    rfl
  rw [Bag.toList_ofList, List.take_of_length_le hroom]
  refine ⟨Block.opened_foldl (fun t ht => ?_) (List.forall_mem_nil _), hreports, ?_, fun h => ?_⟩
  · obtain ⟨p, hp, ht⟩ := List.mem_filterMap.1 ht
    exact Placed.mem_of_mem_tokens hp (List.mem_of_mem_head? ht)
  · rw [hreports, List.length_map, Block.length_innermost_eq_iff]
  · rw [hreports, Block.innermost_eq_self h]

/-- Two loops, one in the other, and neither of them has an end. -/
def twoLoops : Text := "طالما صحيح\nطالما صحيح\n"

theorem length_reports_twoLoops :
    (transpile 0 (some twoLoops) {} (tokenize 0 twoLoops).tokens).reports.length = 1 := by
  cbv

theorem unclosed_reports_innermost_twoLoops :
    ({} : Style).strict = true ∧
      ∃ script ∈ transpile? 0 (some twoLoops) {} (tokenize 0 twoLoops).tokens,
        script.reports.length ≤ Bag.capacity 0 ∧
        (TokenList.ofList 0 (tokenize 0 twoLoops).tokens).UnclosedReported
          (Bag.ofList 0 script.reports).toList := by
  have hstrict : ({} : Style).strict = true := rfl
  obtain ⟨ts, script, hts, hscript, -, hreported⟩ :=
    unclosed_reports_innermost 0 twoLoops hstrict 0
  have hroom : script.reports.length ≤ Bag.capacity 0 := by
    rw [transpile?] at hscript
    split at hscript
    · cases hscript
    · obtain rfl := Option.some.inj hscript
      rw [length_reports_twoLoops]
      decide
  exact ⟨hstrict, script, hscript, hroom, hts ▸ hreported hroom⟩

/-- Two blocks are open at the end, and one of them is reported. -/
theorem loop_in_loop_unreported :
    (Diagnostic.unclosed
      (transpile 0 (some twoLoops) {} (tokenize 0 twoLoops).tokens).reports).length = 1 ∧
      (TokenList.ofList 0 (tokenize 0 twoLoops).tokens).openBlocks.length = 2 := by
  constructor <;> cbv

end Tarjuman
