/-
# When reading comes to its end

The walk along a list of tokens comes to its end unless it gets into a trap: an argument
list that stands on the end of the input and sees a comma behind it.  From there the walk
takes the comma for the start of another argument, cannot step onto it, fails to read an
argument where it stands and is back where it was (`Walk.IsTrap.cycles`).  Nothing else
keeps it from ending, so it ends for every list of tokens without a comma right behind its
first end of the input.
-/

import Tarjuman.Proofs.ErrorFree
import Tarjuman.Proofs.StatementWalk

namespace Tarjuman

open StateTransition Relation

namespace Walk

variable {ts : List Token} {w : Walk}

/-- A trap leads back into a trap. -/
theorem IsTrap.cycles (h : w.IsTrap ts) : ∃ w', Reaches₁ (step ts) w w' ∧ w'.IsTrap ts := by
  obtain ⟨i, whole, _, entered⟩ := w
  obtain ⟨⟨todo, rfl⟩, hend, hcomma⟩ := h
  replace hend : kindAt ts i = .endOfInput := hend
  replace hcomma : kindAt ts (i + 1) = .comma := hcomma
  have hstay : advance ts i = i := by rw [advance, if_pos hend]
  have hargument : Reaches₁ (step ts) ⟨i, whole, .nextArgument :: todo, entered⟩
      ⟨i, whole, .argument :: todo, entered⟩ :=
    .single (by simp [step, perform, hcomma, hstay])
  have hexpr : Reaches (step ts) ⟨i, whole, .argument :: todo, entered⟩
      ⟨i, whole, .expr :: .nextArgument :: todo, entered⟩ :=
    .single (by simp [step, perform, hstay])
  have hoperand : Reaches (step ts) ⟨i, whole, .expr :: .nextArgument :: todo, entered⟩ _ :=
    reaches_expr i whole (.nextArgument :: todo) entered
  have hmissing : Reaches (step ts) ⟨i, whole, .operand :: _, entered⟩ _ :=
    reaches_operand (by simp [hend]) whole (.operator :: .nextArgument :: todo) entered
  rw [hend] at hmissing
  have hback : Reaches (step ts) ⟨i, false, .operator :: .nextArgument :: todo, entered⟩ _ :=
    reaches_single (.inl rfl) (.nextArgument :: todo) entered
  have hcycle := hexpr.trans (hoperand.trans (hmissing.trans hback))
  exact ⟨_, hargument.trans_left hcycle, ⟨todo, rfl⟩, hend, hcomma⟩

/-- On the way into a trap there is always another step. -/
theorem Trapped.exists_step (h : w.Trapped ts) : ∃ w' ∈ step ts w, w'.Trapped ts := by
  obtain ⟨v, hv, htrap⟩ := h
  obtain ⟨v', hcycle, htrap'⟩ := htrap.cycles
  obtain ⟨w', hstep, hrest⟩ := TransGen.head'_iff.1 (hcycle.trans_right hv)
  exact ⟨w', hstep, v', hrest, htrap'⟩

/-- **A walk into a trap never ends.** -/
theorem Trapped.not_dom (h : w.Trapped ts) : ¬ (eval (step ts) w).Dom := by
  intro hdom
  obtain ⟨hreaches, hstop⟩ := mem_eval.1 (Part.get_mem hdom)
  -- Being on the way into a trap is kept by each step, and the last point has none.
  generalize (eval (step ts) w).get hdom = last at hreaches hstop
  clear hdom
  induction hreaches using ReflTransGen.head_induction_on with
  | refl =>
    obtain ⟨w', hstep, -⟩ := h.exists_step
    rw [hstop] at hstep
    cases hstep
  | head hstep _ ih =>
    obtain ⟨w', hstep', htrap⟩ := h.exists_step
    obtain rfl := Option.mem_unique hstep hstep'
    exact ih htrap

/-- The walk along a list of tokens ends exactly if reading them does. -/
theorem dom_iff (file : FileId) (ts : List Token) :
    (eval (step ts) {}).Dom ↔ isEndless file ts = false := by
  rcases ends_or_trapped file ts with ⟨hendless, htrap⟩ | ⟨hends, whole, hreaches⟩
  · exact iff_of_false htrap.not_dom (by simp [hendless])
  · exact iff_of_true (Part.dom_iff_mem.2 ⟨_, mem_eval.2 ⟨hreaches, rfl⟩⟩) hends

theorem dom_iff_not_trapped (ts : List Token) :
    (eval (step ts) {}).Dom ↔ ¬ Trapped ts {} := by
  refine ⟨fun hdom htrap => htrap.not_dom hdom, fun hfree => ?_⟩
  rcases ends_or_trapped 0 ts with ⟨-, htrap⟩ | ⟨hends, -⟩
  · exact absurd htrap hfree
  · exact (dom_iff 0 ts).2 hends

end Walk

theorem Statement.IsRead.not_endless {s : Statement} (h : s.IsRead) : s.isEndless = false := by
  cases s with
  | function => rfl
  | finish => cases h
  | _ => exact h

/-- Where no comma follows the end of the input reading ends. -/
theorem not_isEndless_of_trap {file : FileId} {ts : List Token}
    (h : (TokenList.ofList file ts).trap = false) : isEndless file ts = false := by
  obtain ⟨body, hbody, hread⟩ := isRead_readStatements (TokenList.ofList file ts).body
  have hstatements :
      (TokenList.ofList file ts).statements.map (·.statement) = body ++ [.finish] := by
    rw [TokenList.statements, h, hbody]
  rw [isEndless, List.any_eq_false]
  intro p hp
  have hmem : p.statement ∈ body ++ [.finish] := hstatements ▸ List.mem_map_of_mem hp
  rcases List.mem_append.1 hmem with hmem | hmem
  · simp [(hread _ hmem).not_endless]
  · simp [List.mem_singleton.1 hmem, Statement.isEndless]

/-- The end of the input stands behind the tokens that are read. -/
theorem TokenList.length_body (file : FileId) (ts : List Token) :
    (TokenList.ofList file ts).body.length = ts.findIdx (·.kind = .endOfInput) := by
  rw [TokenList.body_ofList, List.takeWhile_eq_take_findIdx_not]
  simp [List.findIdx_le_length]

/-- **When reading comes to its end.**  The walk along a list of tokens ends exactly if there
is a script for them, and exactly if it never gets to an argument list that stands on the
end of the input with a comma behind it.  Without a comma right behind the first end of
the input it always ends. -/
theorem walk_ends_iff (file : FileId) (content : Option Text) (style : Style) (ts : List Token) :
    ((eval (Walk.step ts) {}).Dom ↔ (transpile? file content style ts).isSome = true) ∧
      ((eval (Walk.step ts) {}).Dom ↔ ∀ w, Reaches (Walk.step ts) {} w → ¬ w.IsTrap ts) ∧
      (kindAt ts (ts.findIdx (·.kind = .endOfInput) + 1) ≠ .comma →
        (eval (Walk.step ts) {}).Dom) := by
  refine ⟨?_, ?_, fun hcomma => ?_⟩
  · rw [Walk.dom_iff file, transpile?]
    cases isEndless file ts <;> simp
  · rw [Walk.dom_iff_not_trapped, Walk.Trapped, not_exists]
    simp only [not_and]
  · rw [Walk.dom_iff file]
    refine not_isEndless_of_trap (Bool.eq_false_iff.2 fun htrap => hcomma ?_)
    rw [← TokenList.length_body file]
    exact (TokenList.cut file ts).trap_iff.1 htrap

/-- A call that is cut off by an end of the input, with a comma behind that. -/
def cutOffCall : List Token :=
  [⟨.ident, 1, ⟨0, 0, 1⟩⟩, ⟨.lparen, 1, ⟨0, 1, 2⟩⟩, ⟨.endOfInput, 1, ⟨0, 2, 2⟩⟩,
    ⟨.comma, 1, ⟨0, 2, 3⟩⟩]

theorem cutOffCall_never_ends :
    ¬ (eval (Walk.step cutOffCall) {}).Dom ∧
      transpile? 0 (some "abcdefghijklmnop") {} cutOffCall = none := by
  have htrap : Walk.Trapped cutOffCall {} :=
    ⟨_, .head rfl (.head rfl (.head rfl (.head rfl (.head rfl .refl)))), ⟨_, rfl⟩, rfl, rfl⟩
  have hendless : isEndless 0 cutOffCall = true := by
    rw [← Bool.not_eq_false, ← Walk.dom_iff]
    exact htrap.not_dom
  exact ⟨htrap.not_dom, by rw [transpile?, if_pos hendless]⟩

end Tarjuman
