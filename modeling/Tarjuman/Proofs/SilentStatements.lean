/-
# No statement disappears in silence

A statement may be written as nothing.  A `for` says nothing, a raw literal may be empty,
and the end of the input is marked only if that is asked for.  Everything else that is
written as nothing is reported (`Desk.silent_readStatement`), at a token of the statement
or at the one behind it (`Placed.exists_report`), and keeping each finding once does not
lose the place (`silent_statements_reported`).
-/

import Tarjuman.Proofs.BagLimit
import Tarjuman.Proofs.NameSpelling
import Tarjuman.Proofs.ReportPlaces
import Tarjuman.Proofs.StatementRanges

namespace Tarjuman

open StateTransition

/-! ## Statements that are written as nothing -/

theorem noErrors_nil : NoErrors [] := List.forall_mem_nil _

namespace Desk

variable {src : Source.Tokens} {style : Style}

/-- A statement around an expression is empty only if the expression is not whole. -/
theorem text_of_wrap {desk : Desk} {d : Draft} {f : Text → Text} (hf : ∀ v, f v ≠ [])
    (h : (desk.wrap d f).fragment = []) : d.text = none := by
  cases hd : d.text with
  | none => rfl
  | some v =>
    rw [wrap, hd] at h
    exact absurd h (hf v)

theorem silent_expr {desk : Desk} {value : Expr} {f : Text → Text} (hf : ∀ v, f v ≠ [])
    (hend : value.isEndless = false)
    (h : (desk.wrap (Lexicon.expr ⟨src, desk.names⟩ value) f).fragment = []) :
    (Lexicon.expr ⟨src, desk.names⟩ value).reports ≠ [] := by
  intro hnil
  obtain ⟨text, htext⟩ :=
    Lexicon.expr_text_of_noErrors ⟨src, desk.names⟩ hend (hnil ▸ noErrors_nil)
  rw [text_of_wrap hf h] at htext
  cases htext

theorem silent_condition {desk : Desk} {names : Names} {c : Condition} {f : Text → Text}
    (hf : ∀ v, f v ≠ []) (hend : c.isEndless = false)
    (h : (desk.wrap (Lexicon.condition ⟨src, names⟩ c) f).fragment = []) :
    (Lexicon.condition ⟨src, names⟩ c).reports ≠ [] := by
  intro hnil
  obtain ⟨text, htext⟩ :=
    Lexicon.condition_text_of_noErrors ⟨src, names⟩ hend (hnil ▸ noErrors_nil)
  rw [text_of_wrap hf h] at htext
  cases htext

/-- A call is written with its parentheses, or not at all. -/
theorem silent_call {desk : Desk} {name : Token} {args : Arguments}
    (hend : args.isEndless = false)
    (h : (desk.wrap (Lexicon.operand ⟨src, desk.names⟩ (.call name args)) id).fragment = []) :
    (Lexicon.operand ⟨src, desk.names⟩ (.call name args)).reports ≠ [] := by
  intro hnil
  obtain ⟨text, htext⟩ := Lexicon.operand_text_of_noErrors ⟨src, desk.names⟩
    (o := .call name args) hend (hnil ▸ noErrors_nil)
  have hempty : text = [] := by
    rw [wrap, htext] at h
    exact h
  rw [Lexicon.operand] at htext
  dsimp only at htext
  split at htext
  · obtain rfl := Option.some.inj htext
    exact List.append_ne_nil_of_right_ne_nil _ (by decide) hempty
  · cases htext

theorem silent_declare {desk : Desk} {name : Token} {quoted : Bool} {value : Expr}
    (hend : value.isEndless = false)
    (h : (desk.declare src style name quoted value).fragment = []) :
    (desk.declare src style name quoted value).reports ≠ [] := by
  intro hnil
  have hreports : (Lexicon.expr ⟨src, desk.names⟩ value).reports = [] := by
    rw [declare] at hnil
    dsimp only at hnil
    split at hnil
    · exact hnil
    · exact (List.append_eq_nil_iff.1 hnil).1
  obtain ⟨text, htext⟩ :=
    Lexicon.expr_text_of_noErrors ⟨src, desk.names⟩ hend (hreports ▸ noErrors_nil)
  rw [declare, htext] at h
  exact List.append_ne_nil_of_right_ne_nil _ (by decide) h

theorem silent_function {desk : Desk} {keyword : Token} {name : Option Token}
    {params : List Token} {fault : Option Misplaced} (hread : name = none → fault.isSome = true)
    (h : (desk.function src style keyword name params fault).fragment = []) :
    (desk.function src style keyword name params fault).reports ≠ [] := by
  have hfaults (hfault : fault.isSome = true) : fault.toList.map src.misplaced ≠ [] := by
    obtain ⟨m, rfl⟩ := Option.isSome_iff_exists.1 hfault
    exact List.cons_ne_nil _ _
  cases name with
  | none => exact hfaults (hread rfl)
  | some name =>
    refine List.append_ne_nil_of_right_ne_nil _ (hfaults ?_)
    rw [function] at h
    dsimp only at h
    split at h
    · assumption
    · exact absurd h (List.append_ne_nil_of_right_ne_nil _ (by decide))

theorem silent_close {desk : Desk} {keyword : Token}
    (h : (desk.close style keyword).fragment = []) : (desk.close style keyword).reports ≠ [] := by
  rw [close] at h ⊢
  split at h
  · cases h
  · split at h
    · rename_i hstrict
      rw [if_pos hstrict]
      exact List.cons_ne_nil _ _
    · cases h

theorem silent_otherwise {desk : Desk} {keyword : Token}
    (h : (desk.otherwise style keyword).fragment = []) :
    (desk.otherwise style keyword).reports ≠ [] := by
  rw [otherwise] at h ⊢
  split at h
  · cases h
  · split at h
    · rename_i hstrict
      rw [if_pos hstrict]
      exact List.cons_ne_nil _ _
    · cases h

/-- **A statement that is written as nothing** is a `for`, an empty raw literal, or
reported. -/
theorem silent_readStatement (desk : Desk) (t : Token) (ts : List Token)
    (h : (desk.write src style (readStatement false t ts).value).fragment = []) :
    ((t.kind = .kwFor ∨ t.kind = .rawLit ∧ src.text t = []) ∧
        (readStatement false t ts).rest = ts) ∨
      (desk.write src style (readStatement false t ts).value).reports ≠ [] := by
  have hexpr (ts : List Token) : (readExpr false ts).value.isEndless = false :=
    (readsExpr false ts).not_endless
  have hcondition : (readCondition false ts).value.isEndless = false :=
    (readsCondition false ts).not_endless
  rw [readStatement] at h ⊢
  split at h
  · rw [readVariable] at h ⊢
    refine .inr ?_
    split at h
    · exact List.cons_ne_nil _ _
    split at h
    · exact List.cons_ne_nil _ _
    · exact silent_declare (hexpr _) h
  · rw [readPrint] at h ⊢
    refine .inr ?_
    split at h
    · rename_i hstarts
      rw [if_pos hstarts]
      exact silent_expr (fun v => List.append_ne_nil_of_right_ne_nil _ (by decide)) (hexpr ts) h
    · rename_i hstarts
      rw [if_neg hstarts]
      exact List.cons_ne_nil _ _
  · rw [readFunction] at h ⊢
    refine .inr ?_
    split at h
    · exact silent_function (fun _ => rfl) h
    split at h
    · exact silent_function (fun _ => rfl) h
    split at h
    · exact silent_function (fun _ => rfl) h
    split at h
    · exact silent_function (fun _ => rfl) h
    · exact silent_function (by simp) h
  · refine .inr ?_
    cases ts with
    | nil => exact List.cons_ne_nil _ _
    | cons u r =>
      rw [readCallOrAssign] at h ⊢
      split at h
      · rename_i hu
        rw [if_pos hu]
        exact silent_call (readsArguments false r).not_endless h
      · rename_i hu
        rw [if_neg hu]
        split at h
        · rename_i hassign
          rw [if_pos hassign]
          have hvalue : (Lexicon.expr ⟨src, desk.names⟩ (readExpr false r).value).reports ≠ [] :=
            silent_expr (fun v => List.append_ne_nil_of_right_ne_nil _ (by decide)) (hexpr r) h
          exact List.append_ne_nil_of_right_ne_nil _ hvalue
        · rename_i hassign
          rw [if_neg hassign]
          exact List.cons_ne_nil _ _
  · rename_i hkind
    exact .inl ⟨.inr ⟨hkind, h⟩, rfl⟩
  · exact .inr (silent_close h)
  · exact .inr (silent_condition (fun v => List.append_ne_nil_of_right_ne_nil _ (by decide))
      hcondition h)
  · exact .inr (silent_condition (fun v => List.append_ne_nil_of_right_ne_nil _ (by decide))
      hcondition h)
  · exact .inr (silent_otherwise h)
  · split at h
    · rename_i hstarts
      rw [if_pos hstarts]
      exact .inr (silent_expr (fun v => List.append_ne_nil_of_right_ne_nil _ (by decide))
        (hexpr ts) h)
    · exact absurd h (show Text.ofString "return;" ≠ [] by decide)
  · rename_i hkind
    exact .inl ⟨.inl hkind, rfl⟩
  · exact .inr (List.cons_ne_nil _ _)
  · exact .inr (List.cons_ne_nil _ _)

end Desk

/-! ## Where they are reported -/

namespace Placed

/-- Each statement but the end of the input is read from its own tokens and those of the
statements behind it. -/
theorem read_of_split {ts : List Token} {front back : List Placed} {p : Placed}
    (h : readStatements false ts = front ++ p :: back) :
    p.statement = .finish ∨ ∃ t r,
      p.tokens ++ back.flatMap (·.tokens) = t :: r ∧
      p.statement = (readStatement false t r).value ∧
      back.flatMap (·.tokens) = (readStatement false t r).rest := by
  fun_induction readStatements false ts generalizing front with
  | case1 =>
    cases front with
    | nil =>
      obtain ⟨rfl, -⟩ := List.cons_eq_cons.1 h
      exact .inl rfl
    | cons q front => cases front <;> cases (List.cons_eq_cons.1 h).2
  | case2 t r s =>
    rename_i ih
    cases front with
    | nil =>
      obtain ⟨rfl, hback⟩ := List.cons_eq_cons.1 h
      obtain ⟨body, hbody, htokens, -⟩ := exists_front s.rest
      have hrest : back.flatMap (·.tokens) = s.rest := by
        rw [← hback, hbody, List.flatMap_append, htokens]
        exact List.append_nil _
      refine .inr ⟨t, r, ?_, rfl, hrest⟩
      rw [hrest]
      exact own_readStatement false t r
    | cons q front => exact ih (List.cons_eq_cons.1 h).2

/-- **What is reported about a statement points at one of its tokens or at the next one.** -/
theorem span_of_report {src : Source.Tokens} {style : Style} (desk : Desk) {ts : List Token}
    {front back : List Placed} {p : Placed} (h : readStatements false ts = front ++ p :: back)
    (hfinish : p.statement ≠ .finish) :
    ∀ d ∈ (desk.write src style p.statement).reports,
      ∃ u ∈ (p.tokens ++ (back.flatMap (·.tokens) ++ [src.finish])).take (p.tokens.length + 1),
        d.span = u.span := by
  obtain hend | ⟨t, r, hown, hstatement, hrest⟩ := read_of_split h
  · exact absurd hend hfinish
  · have htake : (p.tokens ++ (back.flatMap (·.tokens) ++ [src.finish])).take
          (p.tokens.length + 1) =
        p.tokens ++ (back.flatMap (·.tokens) ++ [src.finish]).head?.toList := by
      rw [List.take_length_add_append, List.take_one]
    rw [htake]
    have hwithin : ∀ d ∈ (desk.write src style p.statement).reports,
        d.Within fun s => ∃ u ∈ p.tokens ++
          (back.flatMap (·.tokens) ++ [src.finish]).head?.toList, s = u.span := by
      refine Desk.write_within style (fun hst => absurd hst hfinish) (fun hmeets => ?_) ?_
      · rw [hstatement] at hmeets
        rw [hrest, rest_readStatement_of_meetsEnd false t r hmeets]
        exact ⟨src.finish, List.mem_append_right _ List.mem_cons_self, rfl⟩
      · intro u hu
        rw [hrest] at hown
        rw [hstatement] at hu
        have hmem := (sublist_tokens_readStatement false t r hown).subset hu
        refine ⟨u, ?_, rfl⟩
        rcases List.mem_append.1 hmem with hmem | hmem
        · exact List.mem_append_left _ hmem
        · rw [hrest, List.head?_append, Option.mem_toList.1 hmem]
          exact List.mem_append_right _ List.mem_cons_self
    exact fun d hd => (hwithin d hd).place

/-- The statement may be written as nothing: a `for`, a raw literal without text, or the end
of the input if it is not marked. -/
def MayBeSilent (content : Text) (style : Style) (p : Placed) : Prop :=
  (∃ t, p.tokens = [t] ∧ t.kind = .kwFor) ∨
    (∃ t, p.tokens = [t] ∧ t.kind = .rawLit ∧ t.text content = []) ∨
    (p.statement = .finish ∧ style.banner = false)

theorem mayBeSilent_or_reports {content : Text} {last : Token} {style : Style} (desk : Desk)
    {ts : List Token} {front back : List Placed} {p : Placed}
    (h : readStatements false ts = front ++ p :: back)
    (hempty : (desk.write ⟨some content, last⟩ style p.statement).fragment = []) :
    p.MayBeSilent content style ∨
      (p.statement ≠ .finish ∧
        (desk.write ⟨some content, last⟩ style p.statement).reports ≠ []) := by
  by_cases hfinish : p.statement = .finish
  · refine .inl (.inr (.inr ⟨hfinish, ?_⟩))
    rw [hfinish, Desk.write, Desk.finish] at hempty
    dsimp only at hempty
    split at hempty
    · exact absurd hempty (by decide)
    · rename_i hbanner
      exact Bool.not_eq_true _ ▸ hbanner
  · obtain hend | ⟨t, r, hown, hstatement, hrest⟩ := read_of_split h
    · exact absurd hend hfinish
    · rw [hstatement] at hempty
      rcases Desk.silent_readStatement desk t r hempty with ⟨hkind, hleft⟩ | hreports
      · have hsingle : p.tokens = [t] := by
          rw [hrest, hleft] at hown
          exact List.append_cancel_right hown
        rcases hkind with hkind | ⟨hkind, htext⟩
        · exact .inl (.inl ⟨t, hsingle, hkind⟩)
        · exact .inl (.inr (.inl ⟨t, hsingle, hkind, htext⟩))
      · rw [← hstatement] at hreports
        exact .inr ⟨hfinish, hreports⟩

/-- Statements have tokens of the source only. -/
theorem mem_of_mem_tokens {ts : List Token} {p : Placed} (h : p ∈ readStatements false ts)
    {t : Token} (ht : t ∈ p.tokens) : t ∈ ts := by
  obtain ⟨front, hfront, htokens, -⟩ := exists_front ts
  have hall : (readStatements false ts).flatMap (·.tokens) = ts := by
    rw [hfront, List.flatMap_append, htokens]
    exact List.append_nil ts
  rw [← hall]
  exact List.mem_flatMap.2 ⟨p, h, ht⟩

/-- The start of a statement and of the next one. -/
theorem getElem?_starts_split (front back : List Placed) (p : Placed) (hback : back ≠ []) :
    (starts 0 (front ++ p :: back))[front.length]? = some (front.flatMap (·.tokens)).length ∧
      (starts 0 (front ++ p :: back))[front.length + 1]? =
        some ((front.flatMap (·.tokens)).length + p.tokens.length) := by
  obtain ⟨q, back, rfl⟩ := List.exists_cons_of_ne_nil hback
  have hlen := length_starts 0 front
  rw [starts_append, Nat.zero_add]
  constructor
  · rw [List.getElem?_append_right (by omega), hlen, Nat.sub_self]
    rfl
  · rw [List.getElem?_append_right (by omega), hlen, Nat.add_sub_cancel_left]
    rfl

end Placed

/-- Keeping each finding once keeps its place. -/
theorem Diagnostic.exists_span_mem_distinct {d : Diagnostic} {ds : List Diagnostic} (h : d ∈ ds) :
    ∃ e ∈ distinct ds, e.span = d.span := by
  obtain ⟨e, he, hsame⟩ := exists_same_mem_distinctFrom [] h
  simp only [same, decide_eq_true_eq] at hsame
  exact ⟨e, he.resolve_left List.not_mem_nil, hsame.2.2.1.symm⟩

/-- One of the findings points at a token with an index from `a` up to `b`. -/
def PointsInto (tokens : List Token) (a b : Nat) (ds : List Diagnostic) : Prop :=
  ∃ n t, a ≤ n ∧ n ≤ b ∧ tokens[n]? = some t ∧ ∃ d ∈ ds, d.span = t.span

/-- A statement that is written as nothing may be so, or is reported at one of its tokens or
at the one behind them. -/
theorem silent_or_pointsInto (file : FileId) (content : Text) (style : Style) {j : Nat}
    {p : Placed} {w : Written}
    (hp : (TokenList.ofList file (tokenize file content).tokens).statements[j]? = some p)
    (hw : (Desk.writeAll ⟨some content, (TokenList.ofList file
      (tokenize file content).tokens).finish⟩ style {}
        (TokenList.ofList file (tokenize file content).tokens).statements)[j]? = some w)
    (hempty : w.fragment = []) :
    p.MayBeSilent content style ∨ ∃ a b,
      (Placed.starts 0 (TokenList.ofList file (tokenize file content).tokens).statements)[j]? =
        some a ∧
      (Placed.starts 0 (TokenList.ofList file (tokenize file content).tokens).statements)[j + 1]? =
        some b ∧
      PointsInto (tokenize file content).tokens a b
        (transpile file (some content) style (tokenize file content).tokens).reports := by
  obtain ⟨body, last, htokens, hcut⟩ := TokenList.ofList_tokenize file content
  rw [hcut] at hp hw
  rw [transpile, hcut, htokens]
  dsimp only [TokenList.statements] at hp hw ⊢
  generalize hps : readStatements false body = ps at hp hw ⊢
  have hwritten := List.mem_of_getElem? hw
  rw [Desk.getElem?_writeAll, hp, Option.map_some, Option.some.injEq] at hw
  generalize Desk.after ⟨some content, last⟩ style {} (ps.take j) = desk at hw
  obtain ⟨hj, hget⟩ := List.getElem?_eq_some_iff.1 hp
  have hsplit : ps = ps.take j ++ p :: ps.drop (j + 1) := by
    rw [← hget, List.cons_getElem_drop_succ, List.take_append_drop]
  have hlen : (ps.take j).length = j := List.length_take_of_le (Nat.le_of_lt hj)
  generalize ps.take j = front at hsplit hlen
  generalize ps.drop (j + 1) = back at hsplit
  subst hsplit hlen hw
  rcases Placed.mayBeSilent_or_reports desk hps hempty with hsilent | ⟨hfinish, hreports⟩
  · exact .inl hsilent
  · right
    obtain ⟨d, hd⟩ := List.exists_mem_of_ne_nil _ hreports
    obtain ⟨u, hu, hspan⟩ := Placed.span_of_report desk hps hfinish d hd
    have hback : back ≠ [] := by
      rintro rfl
      obtain ⟨whole, hwhole, -, -⟩ := Placed.exists_front body
      rw [hwhole] at hps
      obtain ⟨-, hlast⟩ := List.append_inj' hps rfl
      exact hfinish (by rw [← List.singleton_inj.1 hlast])
    obtain ⟨ha, hb⟩ := Placed.getElem?_starts_split front back p hback
    refine ⟨_, _, ha, hb, ?_⟩
    obtain ⟨whole, hwhole, hall, -⟩ := Placed.exists_front body
    have hbody : body = front.flatMap (·.tokens) ++ (p.tokens ++ back.flatMap (·.tokens)) := by
      have hflat := congrArg (List.flatMap (·.tokens)) (hwhole.symm.trans hps)
      simpa [hall] using hflat
    obtain ⟨e, he, hsame⟩ := Diagnostic.exists_span_mem_distinct
      (List.mem_flatMap.2 ⟨_, hwritten, hd⟩)
    obtain ⟨n, hn, hget⟩ := List.mem_take_iff_getElem.1 hu
    refine ⟨(front.flatMap (·.tokens)).length + n, u, by omega, by omega, ?_, e, he, ?_⟩
    · rw [hbody, List.append_assoc, List.getElem?_append_right (by omega),
        Nat.add_sub_cancel_left, List.append_assoc]
      exact List.getElem?_eq_some_iff.2 ⟨_, hget⟩
    · rw [hsame, hspan]

/-- **No statement disappears without a report.**  The walk over the tokens of a content comes
to its end, and there is one fragment for each statement that it entered.  A fragment is
empty only where the statement may say nothing (`Placed.MayBeSilent`) or where a finding is
kept that points at a token of the statement or at the one behind it.  So in a source without
a `for` and without an empty raw literal about which nothing is reported, every statement is
written, the end of the input apart if it is not marked.  A bag with room for all findings
holds them all. -/
theorem silent_statements_reported (file : FileId) (content : Text) (style : Style) :
    ∃ last ∈ eval (Walk.step (tokenize file content).tokens) {},
      ∃ script ∈ transpile? file (some content) style (tokenize file content).tokens,
      ∃ fragments : List Text,
        PartsTokens (tokenize file content).tokens
          (TokenList.ofList file (tokenize file content).tokens).statements
          last.entered.reverse ∧
        script.fragments = (if style.prelude then [Style.openingBanner] else []) ++ fragments ∧
        fragments.length = last.entered.length ∧
        (∀ j, fragments[j]? = some [] →
          ∃ p, (TokenList.ofList file (tokenize file content).tokens).statements[j]? = some p ∧
            (p.MayBeSilent content style ∨
              ∃ a b, last.entered.reverse[j]? = some a ∧ last.entered.reverse[j + 1]? = some b ∧
                PointsInto (tokenize file content).tokens a b script.reports)) ∧
        ((∀ t ∈ (tokenize file content).tokens, t.kind ≠ .kwFor) →
          (∀ t ∈ (tokenize file content).tokens, t.kind = .rawLit → t.text content ≠ []) →
          script.reports = [] →
          ∀ j, fragments[j]? = some [] → j + 1 = fragments.length ∧ style.banner = false) ∧
        (∀ n : Int, script.reports.length ≤ Bag.capacity n →
          (Bag.ofList n script.reports).toList = script.reports) := by
  obtain ⟨body, final, htokens, hcut⟩ := TokenList.ofList_tokenize file content
  have htrap : (TokenList.ofList file (tokenize file content).tokens).trap = false := by rw [hcut]
  have hparts := partsTokens_statements htrap
  obtain ⟨last, hlast, hentered⟩ := Walk.exists_entered htrap
  have hscript : transpile? file (some content) style (tokenize file content).tokens =
      some (transpile file (some content) style (tokenize file content).tokens) := by
    rw [transpile?, not_isEndless_of_trap htrap]
    rfl
  have hsilent : ∀ j, ((Desk.writeAll ⟨some content, (TokenList.ofList file
      (tokenize file content).tokens).finish⟩ style {} (TokenList.ofList file
        (tokenize file content).tokens).statements).map (·.fragment))[j]? = some [] →
      ∃ p, (TokenList.ofList file (tokenize file content).tokens).statements[j]? = some p ∧
        (p.MayBeSilent content style ∨
          ∃ a b, last.entered.reverse[j]? = some a ∧ last.entered.reverse[j + 1]? = some b ∧
            PointsInto (tokenize file content).tokens a b
              (transpile file (some content) style (tokenize file content).tokens).reports) := by
    intro j hj
    rw [List.getElem?_map] at hj
    obtain ⟨w, hw, hempty⟩ := Option.map_eq_some_iff.1 hj
    have hat := hw
    rw [Desk.getElem?_writeAll] at hat
    obtain ⟨p, hp, -⟩ := Option.map_eq_some_iff.1 hat
    rw [hentered]
    exact ⟨p, hp, silent_or_pointsInto file content style hp hw hempty⟩
  refine ⟨last, hlast, _, hscript, _, hentered ▸ hparts, rfl, ?_, hsilent, ?_, ?_⟩
  · rw [List.length_map, Desk.length_writeAll, hparts.length_eq, ← hentered, List.length_reverse]
  · intro hfor hraw hreports j hj
    obtain ⟨p, hp, hcase⟩ := hsilent j hj
    have hmem : ∀ t ∈ p.tokens, t ∈ (tokenize file content).tokens := by
      intro t ht
      rw [hcut] at hp
      rw [htokens]
      exact List.mem_append_left _ (Placed.mem_of_mem_tokens (List.mem_of_getElem? hp) ht)
    rcases hcase with (⟨t, ht, hkind⟩ | ⟨t, ht, hkind, htext⟩ | ⟨hfinish, hbanner⟩) |
      ⟨a, b, -, -, n, t, -, -, -, d, hd, -⟩
    · exact absurd hkind (hfor t (hmem t (by simp [ht])))
    · exact absurd htext (hraw t (hmem t (by simp [ht])) hkind)
    · refine ⟨?_, hbanner⟩
      rw [List.length_map, Desk.length_writeAll, hparts.length_eq]
      exact (hparts.finish_iff j p hp).1 hfinish
    · rw [hreports] at hd
      cases hd
  · intro n hn
    rw [Bag.toList_ofList, List.take_of_length_le hn]

/-- The end of an empty source is silent if it is not marked: there is no `for` and no raw
literal in it and nothing to report, and yet its only fragment is empty. -/
theorem empty_source_silent_without_banner :
    ¬ ((∀ t ∈ (tokenize 0 []).tokens, t.kind ≠ .kwFor) →
      (∀ t ∈ (tokenize 0 []).tokens, t.kind = .rawLit → t.text [] ≠ []) →
      (tokenize 0 []).reports = [] →
      (transpile 0 (some []) { banner := false } (tokenize 0 []).tokens).reports = [] →
      ∀ f ∈ (transpile 0 (some []) { banner := false } (tokenize 0 []).tokens).fragments,
        f ≠ []) := by
  intro h
  have hfragments : [] ∈
      (transpile 0 (some []) { banner := false } (tokenize 0 []).tokens).fragments := by
    decide +kernel
  exact h (by decide +kernel) (by decide +kernel) (by decide +kernel) (by decide +kernel) []
    hfragments rfl

end Tarjuman
