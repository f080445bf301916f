/-
# The tokens of each statement

The statements stand one behind the other: the tokens before the end of the input are
parted into ranges, one for each statement, and the end of the input is the last statement,
with no token of its own (`Placed.exists_front`).  With `Tarjuman.Proofs.StatementWalk` the
ranges lie between the indices at which the walk enters statements, and there is one
fragment for each of them (`statements_part_tokens`).
-/

import Tarjuman.Proofs.ReadingEnds

namespace Tarjuman

open StateTransition

namespace Placed

/-! ## Statements one behind the other -/

theorem starts_append (i : Nat) (ps qs : List Placed) :
    starts i (ps ++ qs) = starts i ps ++ starts (i + (ps.flatMap (·.tokens)).length) qs := by
  induction ps generalizing i with
  | nil => rfl
  | cons p ps ih =>
    rw [List.cons_append, starts, ih, starts, List.cons_append, List.flatMap_cons,
      List.length_append, Nat.add_assoc]

theorem length_starts (i : Nat) (ps : List Placed) : (starts i ps).length = ps.length := by
  induction ps generalizing i with
  | nil => rfl
  | cons p ps ih => rw [starts, List.length_cons, List.length_cons, ih]

theorem le_of_mem_starts {i a : Nat} {ps : List Placed} (h : a ∈ starts i ps) : i ≤ a := by
  induction ps generalizing i with
  | nil => cases h
  | cons p ps ih =>
    rcases List.mem_cons.1 h with rfl | h
    · exact le_rfl
    · have := ih h
      omega

/-- Statements that have tokens start further and further on. -/
theorem pairwise_starts (i : Nat) {ps : List Placed} (h : ∀ p ∈ ps.dropLast, p.tokens ≠ []) :
    (starts i ps).Pairwise (· < ·) := by
  induction ps generalizing i with
  | nil => exact .nil
  | cons p ps ih =>
    cases ps with
    | nil => exact List.pairwise_singleton _ _
    | cons q qs =>
      rw [List.dropLast_cons_cons, List.forall_mem_cons] at h
      have hpos := List.length_pos_iff.2 h.1
      refine List.pairwise_cons.2 ⟨fun a ha => ?_, ih _ h.2⟩
      have := le_of_mem_starts ha
      omega

/-- The index `n` lies between the start of statement `j` and that of the next one. -/
def InRange (starts : List Nat) (j n : Nat) : Prop :=
  ∃ a b, starts[j]? = some a ∧ starts[j + 1]? = some b ∧ a ≤ n ∧ n < b

theorem starts_concat_zero (i : Nat) (ps : List Placed) (last : Placed) :
    (starts i (ps ++ [last]))[0]? = some i := by
  cases ps <;> rfl

/-- Each index lies in the range of exactly one statement. -/
theorem existsUnique_inRange {ps : List Placed} (last : Placed) {i n : Nat} (hi : i ≤ n)
    (hn : n < i + (ps.flatMap (·.tokens)).length) :
    ∃! j, InRange (starts i (ps ++ [last])) j n := by
  induction ps generalizing i with
  | nil => exact absurd hn (Nat.not_lt.2 hi)
  | cons p ps ih =>
    rw [List.flatMap_cons, List.length_append] at hn
    have hnext := starts_concat_zero (i + p.tokens.length) ps last
    rw [List.cons_append, starts]
    by_cases hp : n < i + p.tokens.length
    · refine ⟨0, ⟨i, _, rfl, hnext, hi, hp⟩, fun j hj => ?_⟩
      cases j with
      | zero => rfl
      | succ j =>
        obtain ⟨a, b, ha, -, hle, -⟩ := hj
        have := le_of_mem_starts (List.mem_of_getElem? ha)
        omega
    · obtain ⟨j, hj, hunique⟩ := ih (Nat.not_lt.1 hp) (by omega)
      refine ⟨j + 1, hj, fun k hk => ?_⟩
      cases k with
      | zero =>
        obtain ⟨a, b, -, hb, -, hlt⟩ := hk
        have : i + p.tokens.length = b := Option.some.inj (hnext.symm.trans hb)
        omega
      | succ k => exact congrArg _ (hunique k hk)

/-- A statement has the tokens from its start to that of the next one. -/
theorem tokens_eq_extract (front tail : List Token) {ps : List Placed} {j a b : Nat} {p : Placed}
    (hp : ps[j]? = some p) (ha : (starts front.length ps)[j]? = some a)
    (hb : (starts front.length ps)[j + 1]? = some b) :
    p.tokens = (front ++ ps.flatMap (·.tokens) ++ tail).extract a b := by
  induction ps generalizing j front with
  | nil => cases hp
  | cons q qs ih =>
    cases j with
    | zero =>
      obtain rfl : q = p := Option.some.inj hp
      obtain rfl : front.length = a := Option.some.inj ha
      have hnext : front.length + q.tokens.length = b := by
        cases qs with
        | nil => cases hb
        | cons q' qs => exact Option.some.inj hb
      subst hnext
      simp [List.extract_eq_take_drop, List.append_assoc]
    | succ j =>
      rw [starts, ← List.length_append] at ha hb
      have := ih _ hp ha hb
      rwa [List.append_assoc front, ← List.flatMap_cons] at this

/-- **The statements have all the tokens**, one behind the other, and none of them but the
end of the input is without. -/
theorem exists_front (ts : List Token) :
    ∃ front, readStatements false ts = front ++ [⟨[], .finish⟩] ∧
      front.flatMap (·.tokens) = ts ∧ ∀ p ∈ front, p.tokens ≠ [] ∧ p.statement ≠ .finish := by
  fun_induction readStatements false ts with
  | case1 => exact ⟨[], rfl, rfl, List.forall_mem_nil _⟩
  | case2 t r s ih =>
    obtain ⟨front, hfront, htokens, hall⟩ := ih
    have hown := own_readStatement false t r
    have hne : (t :: r).take ((t :: r).length - s.rest.length) ≠ [] := fun hnil => by
      rw [hnil, List.nil_append] at hown
      have hle : (readStatement false t r).rest.length ≤ r.length := s.le
      rw [hown, List.length_cons] at hle
      omega
    have hfinish : s.value ≠ .finish := fun h => by
      have hread := isRead_readStatement t r
      rw [h] at hread
      exact hread
    refine ⟨_ :: front, congrArg _ hfront, ?_, List.forall_mem_cons.2 ⟨⟨hne, hfinish⟩, hall⟩⟩
    rw [List.flatMap_cons, htokens]
    exact hown

end Placed

/-! ## Fragments one behind the other -/

/-- The desk behind some statements. -/
def Desk.after (src : Source.Tokens) (style : Style) (desk : Desk) (ps : List Placed) : Desk :=
  ps.foldl (fun desk p => (desk.write src style p.statement).desk) desk

/-- Each statement is written on the desk that the statements before it leave. -/
theorem Desk.getElem?_writeAll (src : Source.Tokens) (style : Style) (desk : Desk)
    (ps : List Placed) (j : Nat) :
    (desk.writeAll src style ps)[j]? =
      ps[j]?.map fun p => (desk.after src style (ps.take j)).write src style p.statement := by
  induction ps generalizing desk j with
  | nil => rfl
  | cons p ps ih =>
    cases j with
    | zero => rfl
    | succ j => exact ih _ j

theorem Desk.length_writeAll (src : Source.Tokens) (style : Style) (desk : Desk)
    (ps : List Placed) : (desk.writeAll src style ps).length = ps.length := by
  induction ps generalizing desk with
  | nil => rfl
  | cons p ps ih => rw [writeAll, List.length_cons, List.length_cons, ih]

/-- The last fragment is written for the end of the input. -/
theorem Desk.getLast?_writeAll (src : Source.Tokens) (style : Style) (desk : Desk)
    (front : List Placed) (ts : List Token) :
    ((desk.writeAll src style (front ++ [⟨ts, .finish⟩])).map (·.fragment)).getLast? =
      some (if style.banner then Style.closingBanner else []) := by
  rw [List.getLast?_eq_getElem?, List.length_map, length_writeAll, List.length_append,
    List.length_singleton, Nat.add_sub_cancel, List.getElem?_map, getElem?_writeAll,
    List.getElem?_concat_length]
  rfl

/-! ## Ranges -/

/-- Statements that are entered at the indices `starts` part the tokens before the end of
the input. -/
structure PartsTokens (ts : List Token) (statements : List Placed) (starts : List Nat) : Prop where
  length_eq : statements.length = starts.length
  first : starts.head? = some 0
  increasing : starts.Pairwise (· < ·)
  /-- The last statement is entered at the end of the input. -/
  last : starts.getLast? = some (ts.findIdx (·.kind = .endOfInput))
  finish_iff : ∀ j p, statements[j]? = some p → (p.statement = .finish ↔ j + 1 = starts.length)
  tokens_eq : ∀ j p a b, statements[j]? = some p → starts[j]? = some a →
    starts[j + 1]? = some b → p.tokens = ts.extract a b
  /-- Each token before the end of the input belongs to exactly one statement. -/
  range : ∀ n < ts.findIdx (·.kind = .endOfInput), ∃! j, Placed.InRange starts j n

theorem partsTokens_statements {file : FileId} {ts : List Token}
    (htrap : (TokenList.ofList file ts).trap = false) :
    PartsTokens ts (TokenList.ofList file ts).statements
      (Placed.starts 0 (TokenList.ofList file ts).statements) := by
  obtain ⟨front, hstatements, htokens, hall⟩ := Placed.exists_front (TokenList.ofList file ts).body
  rw [← htrap] at hstatements
  replace hstatements : (TokenList.ofList file ts).statements = _ := hstatements
  have hlength := TokenList.length_body file ts
  rw [← htokens] at hlength
  rw [hstatements]
  constructor
  · exact (Placed.length_starts ..).symm
  · rw [List.head?_eq_getElem?, Placed.starts_concat_zero]
  · refine Placed.pairwise_starts 0 fun p hp => ?_
    rw [List.dropLast_concat] at hp
    exact (hall p hp).1
  · rw [Placed.starts_append, Nat.zero_add, hlength]
    exact List.getLast?_concat
  · intro j p hp
    rw [Placed.length_starts, List.length_append, List.length_singleton, Nat.add_right_cancel_iff]
    rcases Nat.lt_or_ge j front.length with hj | hj
    · rw [List.getElem?_append_left hj] at hp
      exact iff_of_false (hall p (List.mem_of_getElem? hp)).2 hj.ne
    · have hlt := (List.getElem?_eq_some_iff.1 hp).1
      rw [List.length_append, List.length_singleton] at hlt
      obtain rfl : j = front.length := by omega
      rw [List.getElem?_concat_length] at hp
      obtain rfl := Option.some.inj hp
      exact iff_of_true rfl rfl
  · intro j p a b hp ha hb
    have hsplit : (front ++ [(⟨[], .finish⟩ : Placed)]).flatMap (·.tokens) ++
        ts.dropWhile (·.kind ≠ .endOfInput) = ts := by
      rw [List.flatMap_append, htokens, TokenList.body_ofList]
      simp
    have hextract := Placed.tokens_eq_extract [] (ts.dropWhile (·.kind ≠ .endOfInput)) hp ha hb
    rwa [List.nil_append, hsplit] at hextract
  · rw [← hlength]
    intro n hn
    exact Placed.existsUnique_inRange _ (Nat.zero_le n) (by rwa [Nat.zero_add])

/-- Where the end of the input stands last or nowhere no comma follows it. -/
theorem trap_ofList_of_dropLast (file : FileId) {ts : List Token}
    (h : ∀ t ∈ ts.dropLast, t.kind ≠ .endOfInput) : (TokenList.ofList file ts).trap = false := by
  have hlast : ts.length ≤ ts.findIdx (·.kind = .endOfInput) + 1 := by
    by_contra hlt
    have hinside : ts.findIdx (·.kind = .endOfInput) < ts.length := by omega
    have hearly : ts.findIdx (·.kind = .endOfInput) < ts.dropLast.length := by
      rw [List.length_dropLast]
      omega
    have hkind := List.findIdx_getElem (w := hinside)
    refine h _ (List.getElem_mem hearly) ?_
    rw [List.getElem_dropLast]
    simpa using hkind
  refine Bool.eq_false_iff.2 fun htrap => ?_
  have hcomma := (TokenList.cut file ts).trap_iff.1 htrap
  rw [TokenList.length_body, kindAt, List.drop_eq_nil_of_le hlast] at hcomma
  cases hcomma

/-- The walk comes to its end, having entered statements where they start. -/
theorem Walk.exists_entered {file : FileId} {ts : List Token}
    (htrap : (TokenList.ofList file ts).trap = false) :
    ∃ last ∈ eval (Walk.step ts) {},
      last.entered.reverse = Placed.starts 0 (TokenList.ofList file ts).statements := by
  rcases Walk.ends_or_trapped file ts with ⟨hendless, -⟩ | ⟨-, whole, hreaches⟩
  · rw [not_isEndless_of_trap htrap] at hendless
    cases hendless
  · exact ⟨_, mem_eval.2 ⟨hreaches, rfl⟩, List.reverse_reverse _⟩

/-- **The statements part the tokens.**  Where the end of the input stands last or nowhere,
the walk comes to its end.  The indices at which it has entered statements start with 0
and grow up to the end of the input, the statement entered there is the end of the input
and no other is, and each token before it belongs to exactly one statement.  There is one
fragment for each statement, in their order and behind the mark at the start of the script
if there is one; the last of them is the mark at its end, or empty. -/
theorem statements_part_tokens (file : FileId) (content : Option Text) (style : Style)
    (ts : List Token) (h : ∀ t ∈ ts.dropLast, t.kind ≠ .endOfInput) :
    ∃ last ∈ eval (Walk.step ts) {}, ∃ script ∈ transpile? file content style ts,
      ∃ fragments : List Text,
        PartsTokens ts (TokenList.ofList file ts).statements last.entered.reverse ∧
        script.fragments = (if style.prelude then [Style.openingBanner] else []) ++ fragments ∧
        fragments.length = last.entered.length ∧
        (∀ j, fragments[j]? = (TokenList.ofList file ts).statements[j]?.map fun p =>
          ((Desk.after ⟨content, (TokenList.ofList file ts).finish⟩ style {}
            ((TokenList.ofList file ts).statements.take j)).write
              ⟨content, (TokenList.ofList file ts).finish⟩ style p.statement).fragment) ∧
        fragments.getLast? = some (if style.banner then Style.closingBanner else []) := by
  have htrap := trap_ofList_of_dropLast file h
  have hends := not_isEndless_of_trap htrap
  have hparts := partsTokens_statements htrap
  rcases Walk.ends_or_trapped file ts with ⟨hendless, -⟩ | ⟨-, whole, hreaches⟩
  · rw [hends] at hendless
    cases hendless
  · have hlength := hparts.length_eq
    have hscript : transpile? file content style ts = some (transpile file content style ts) := by
      rw [transpile?, hends]
      rfl
    refine ⟨_, mem_eval.2 ⟨hreaches, rfl⟩, _, hscript, _, ?_, rfl, ?_, ?_, ?_⟩
    · rwa [List.reverse_reverse]
    · rw [List.length_map, Desk.length_writeAll, List.length_reverse, hlength]
    · intro j
      rw [List.getElem?_map, Desk.getElem?_writeAll, Option.map_map]
      rfl
    · obtain ⟨front, hfront, -, -⟩ := Placed.exists_front (TokenList.ofList file ts).body
      rw [TokenList.statements, htrap, hfront]
      exact Desk.getLast?_writeAll ..

/-- A declaration without a value and a call that the end of the input cuts off. -/
def brokenTokens : List Token :=
  [⟨.kwVar, 1, ⟨0, 0, 6⟩⟩, ⟨.ident, 1, ⟨0, 7, 8⟩⟩, ⟨.kwPrint, 1, ⟨0, 9, 12⟩⟩,
    ⟨.ident, 2, ⟨0, 13, 14⟩⟩, ⟨.lparen, 2, ⟨0, 14, 15⟩⟩, ⟨.numberLit, 2, ⟨0, 15, 16⟩⟩,
    ⟨.comma, 2, ⟨0, 16, 17⟩⟩, ⟨.endOfInput, 2, ⟨0, 17, 17⟩⟩]

theorem statements_part_tokens_broken :
    (∀ t ∈ brokenTokens.dropLast, t.kind ≠ .endOfInput) ∧
      ∃ last ∈ eval (Walk.step brokenTokens) {},
        ∃ script ∈ transpile? 0 none { prelude := true } brokenTokens,
          PartsTokens brokenTokens (TokenList.ofList 0 brokenTokens).statements
            last.entered.reverse ∧
          script.fragments.length = last.entered.length + 1 := by
  have hends : ∀ t ∈ brokenTokens.dropLast, t.kind ≠ .endOfInput := by decide
  obtain ⟨last, hlast, script, hscript, fragments, hparts, hfragments, hlength, -, -⟩ :=
    statements_part_tokens 0 none { prelude := true } brokenTokens hends
  refine ⟨hends, last, hlast, script, hscript, hparts, ?_⟩
  rw [hfragments, ← hlength]
  exact List.length_cons

end Tarjuman
