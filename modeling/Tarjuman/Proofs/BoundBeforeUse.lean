/-
# Names are bound before they are used

What a run over a text does with names, put together: at every point of the run the table
has exactly the names that were bound so far, each in its spelling; a reference is written
in that spelling if its name was bound before, and otherwise as it stands, with a report
where it stands; so a run without such a report has no reference that comes before a
binding of its name (`names_bound_before_use`).
-/

import Tarjuman.Proofs.NameSpelling

namespace Tarjuman

/-- A script treats the names of its statements as their uses say. -/
structure Script.FollowsUses (src : Source.Tokens) (style : Style) (ps : List Placed)
    (script : Script) : Prop where
  /-- At every point of the run the table has exactly the names bound so far. -/
  table : ∀ us, us <+: Placed.uses ps →
    (us.foldl (Names.use style.rename src.text) {}).Maps style.rename (NameUse.bound src.text us)
  /-- That table is the one on the desk when statement `k` is written. -/
  desk_names : ∀ k, (Desk.after src style {} (ps.take k)).names =
    (Placed.uses (ps.take k)).foldl (Names.use style.rename src.text) {}
  names : script.names = (Placed.uses ps).foldl (Names.use style.rename src.text) {}
  /-- The uses of each kind come in the order of the tokens. -/
  ordered : ∀ p ∈ ps,
    p.statement.references.Sublist p.tokens ∧ p.statement.bindings.Sublist p.tokens
  /-- No statement refers to a name behind one that it binds itself, so the names bound before
  a reference are those of the statements before. -/
  spelled : ∃ fragments,
    script.fragments = (if style.prelude then [Style.openingBanner] else []) ++ fragments ∧
    ∀ (k : Nat) (p : Placed), ps[k]? = some p → p.statement.uses ≠ [] →
      ∃ text ∈ p.statement.spelled src (Names.spelling src.text style.rename
        (NameUse.bound src.text (Placed.uses (ps.take k)))) style.rename,
          fragments[k]? = some text
  unbound_iff : ∀ d, d.isUnbound = true → (d ∈ script.reports ↔
    ∃ before t behind, Placed.uses ps = before ++ .refer t :: behind ∧
      src.text t ∉ NameUse.bound src.text before ∧ d = src.unbound t)
  bound_of_none : (∀ d ∈ script.reports, d.isUnbound = false) →
    ∀ before t behind, Placed.uses ps = before ++ .refer t :: behind →
      src.text t ∈ NameUse.bound src.text before

namespace Desk

variable (src : Source.Tokens) (style : Style)

theorem getLast?_desk_writeAll (desk : Desk) (ps : List Placed) :
    ((desk.writeAll src style ps).getLast?.map (·.desk)).getD desk = desk.after src style ps := by
  induction ps generalizing desk with
  | nil => rfl
  | cons p ps ih =>
    have hrest := ih (desk.write src style p.statement).desk
    rw [writeAll, List.getLast?_cons]
    generalize (writeAll src style (desk.write src style p.statement).desk ps).getLast? = last
      at hrest ⊢
    cases last with
    | none => exact hrest
    | some w => exact hrest

theorem maps_after {desk : Desk} {bound : List Text} (h : desk.names.Maps style.rename bound)
    (ps : List Placed) : (desk.after src style ps).names.Maps style.rename
      (bound ++ NameUse.bound src.text (Placed.uses ps)) := by
  rw [names_after]
  exact h.foldl_use (Placed.uses ps)

end Desk

theorem Lexicon.spelling_of_maps {src : Source.Tokens} {names : Names} {rename : Text → Text}
    {bound : List Text} (h : names.Maps rename bound) :
    (fun t => (Lexicon.resolve ⟨src, names⟩ t).1) = Names.spelling src.text rename bound := by
  funext t
  rw [Lexicon.resolve_of_maps ⟨src, names⟩ h, Names.spelling]
  split <;> rfl

/-- Reports of unbound names that say the same are the same. -/
theorem Source.Tokens.unbound_eq_of_same {src : Source.Tokens} {t u : Token}
    (h : (src.unbound t).same (src.unbound u) = true) : src.unbound t = src.unbound u := by
  simp only [Diagnostic.same, decide_eq_true_eq] at h
  obtain ⟨-, -, hspan, hmessage⟩ := h
  simp only [unbound, Diagnostic.error] at hspan hmessage ⊢
  rw [hspan, hmessage]

/-- The reports of unbound names are kept, each once. -/
theorem mem_distinct_unbound {src : Source.Tokens} {ds : List Diagnostic} {ts : List Token}
    (h : ds.filter (·.isUnbound) = ts.map src.unbound) {d : Diagnostic}
    (hd : d.isUnbound = true) : d ∈ Diagnostic.distinct ds ↔ ∃ t ∈ ts, d = src.unbound t := by
  have hmem {e : Diagnostic} (he : e.isUnbound = true) :
      e ∈ ds ↔ ∃ t ∈ ts, e = src.unbound t := by
    have hfilter : e ∈ ds.filter (·.isUnbound) ↔ e ∈ ts.map src.unbound := by rw [h]
    rw [List.mem_filter, List.mem_map] at hfilter
    simp only [he, and_true] at hfilter
    rw [hfilter]
    simp only [eq_comm]
  constructor
  · intro hdistinct
    exact (hmem hd).1 (Diagnostic.mem_of_mem_distinctFrom hdistinct)
  · rintro ⟨t, ht, rfl⟩
    obtain ⟨e, he, hsame⟩ :=
      Diagnostic.exists_same_mem_distinctFrom [] ((hmem hd).2 ⟨t, ht, rfl⟩)
    replace he : e ∈ Diagnostic.distinct ds := he.resolve_left List.not_mem_nil
    have hcode : e.isUnbound = true := by
      simp only [Diagnostic.same, decide_eq_true_eq] at hsame
      rw [Diagnostic.isUnbound, ← hsame.1]
      exact hd
    obtain ⟨u, -, rfl⟩ := (hmem hcode).1 (Diagnostic.mem_of_mem_distinctFrom he)
    rw [Source.Tokens.unbound_eq_of_same hsame]
    exact he

/-- **A script follows the uses of its statements.** -/
theorem followsUses_transpile (file : FileId) (content : Option Text) (style : Style)
    (ts : List Token) :
    (transpile file content style ts).FollowsUses ⟨content, (TokenList.ofList file ts).finish⟩ style
      (TokenList.ofList file ts).statements := by
  have hordered : ∀ p ∈ (TokenList.ofList file ts).statements,
      p.statement.references.Sublist p.tokens ∧ p.statement.bindings.Sublist p.tokens :=
    Placed.sublist_names _ _
  rw [transpile]
  generalize (⟨content, (TokenList.ofList file ts).finish⟩ : Source.Tokens) = src
  generalize (TokenList.ofList file ts).statements = ps at hordered ⊢
  have hempty : ({} : Desk).names.Maps style.rename [] := Names.maps_empty style.rename
  have hunbound : ∀ d, d.isUnbound = true →
      (d ∈ Diagnostic.distinct ((Desk.writeAll src style {} ps).flatMap (·.reports)) ↔
        ∃ before t behind, Placed.uses ps = before ++ .refer t :: behind ∧
          src.text t ∉ NameUse.bound src.text before ∧ d = src.unbound t) := by
    intro d hd
    rw [mem_distinct_unbound (Desk.unbound_writeAll src style hempty ps) hd]
    constructor
    · rintro ⟨t, ht, hunbound⟩
      obtain ⟨before, behind, huses, hnot⟩ := (mem_unboundIn src.text).1 ht
      exact ⟨before, t, behind, huses, hnot, hunbound⟩
    · rintro ⟨before, t, behind, huses, hnot, hunbound⟩
      exact ⟨t, (mem_unboundIn src.text).2 ⟨before, behind, huses, hnot⟩, hunbound⟩
  constructor
  · intro us _
    exact (Names.maps_empty style.rename).foldl_use us
  · intro k
    exact Desk.names_after src style {} (ps.take k)
  · rw [← Desk.names_after src style {} ps, ← Desk.getLast?_desk_writeAll]
    cases (Desk.writeAll src style {} ps).getLast? <;> rfl
  · exact hordered
  · refine ⟨_, rfl, fun k p hp huses => ?_⟩
    obtain ⟨text, htext⟩ := Statement.exists_spelled src (Names.spelling src.text style.rename
      (NameUse.bound src.text (Placed.uses (ps.take k)))) style.rename huses
    refine ⟨text, htext, ?_⟩
    have hmaps := Desk.maps_after src style hempty (ps.take k)
    rw [List.nil_append] at hmaps
    rw [← Lexicon.spelling_of_maps hmaps] at htext
    rw [List.getElem?_map, Desk.getElem?_writeAll, hp]
    exact congrArg some (Desk.fragment_write src style _ p.statement text htext)
  · exact hunbound
  · intro hnone before t behind huses
    by_contra hnot
    have hmem := (hunbound (src.unbound t) rfl).2 ⟨before, t, behind, huses, hnot, rfl⟩
    exact Bool.false_ne_true (hnone _ hmem).symm

/-- **Names are bound before they are used.**  For every text and every way to spell names
the run comes to its end, and its script follows the uses of its statements: its table has
at every point exactly the names bound so far, its fragments spell a reference by that
table, and it reports exactly the references that come before a binding of their name. -/
theorem names_bound_before_use (file : FileId) (content : Text) (style : Style) :
    ∃ script ∈ transpile? file (some content) style (tokenize file content).tokens,
      script.FollowsUses
        ⟨some content, (TokenList.ofList file (tokenize file content).tokens).finish⟩ style
        (TokenList.ofList file (tokenize file content).tokens).statements := by
  obtain ⟨body, last, -, hlist⟩ := TokenList.ofList_tokenize file content
  have hends : isEndless file (tokenize file content).tokens = false :=
    not_isEndless_of_trap (by rw [hlist])
  refine ⟨_, ?_, followsUses_transpile file (some content) style _⟩
  rw [transpile?, hends]
  rfl

end Tarjuman
