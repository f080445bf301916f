/-
# Different names, different spellings

The table of names remembers for each spelling only the name that was written with it last,
so it cannot tell all names that share a spelling.  It does not have to.  As long as no
binding finds its spelling in the hands of another name, every name owns its spelling
(`Names.Owned`), and then no two names share one (`Names.Owned.injective`).  This holds
however names are spelled, also when the same name is spelled differently from one binding
to the next.

A run over a text makes its bindings one after the other and reports each clash, so a run
without such a report writes different names differently
(`spellings_distinct_unless_clash`).
-/

import Tarjuman.Proofs.SpellingChoice
import Tarjuman.Proofs.TokenLanguages

namespace Tarjuman

namespace Names

/-- A call that binds a name, with the renaming that is in force then. -/
structure Call where
  rename : Text → Text
  raw : Text

/-- Bind names one after the other: what came of each binding, and the table at the end. -/
def bindAll (ns : Names) : List Call → List Binding × Names
  | [] => ([], ns)
  | c :: calls =>
    let first := ns.bind c.rename c.raw
    let rest := bindAll first.2 calls
    (first.1 :: rest.1, rest.2)

/-- Different names have different spellings. -/
def Injective (ns : Names) : Prop :=
  ∀ a b spelling, ns.lookup a = some spelling → ns.lookup b = some spelling → a = b

/-- No name is empty, and each was the last one to be written with its spelling. -/
structure Owned (ns : Names) : Prop where
  solid : ∀ raw spelling, ns.lookup raw = some spelling → raw ≠ []
  owner : ∀ raw spelling, ns.lookup raw = some spelling → ns.owners.lookup spelling = some raw

theorem Owned.injective {ns : Names} (h : ns.Owned) : ns.Injective := by
  intro a b spelling ha hb
  have howner := (h.owner a spelling ha).symm.trans (h.owner b spelling hb)
  exact Option.some.inj howner

theorem owned_empty : ({} : Names).Owned := by
  constructor
  · intro raw spelling h
    cases h
  · intro raw spelling h
    cases h

section Bind

variable {rename : Text → Text} {ns : Names} {raw : Text}

theorem lookup_bind (other : Text) :
    (ns.bind rename raw).2.lookup other =
      if other = raw then some (rename raw) else ns.lookup other :=
  lookup_put raw (rename raw) other ns.spellings

theorem owners_bind (spelling : Text) :
    (ns.bind rename raw).2.owners.lookup spelling =
      if spelling = rename raw then some raw else ns.owners.lookup spelling :=
  lookup_put (rename raw) raw spelling ns.owners

theorem mem_clash_iff {other : Text} :
    other ∈ (ns.bind rename raw).1.clash ↔
      ns.owners.lookup (rename raw) = some other ∧ other ≠ raw ∧ other ≠ [] := by
  unfold bind
  simp [Option.mem_def, Option.filter_eq_some_iff]

/-- **A binding without a clash leaves every spelling with its owner.**  The name that had the
spelling before, if there is one, is the name that is bound. -/
theorem Owned.bind (h : ns.Owned) (hraw : raw ≠ [])
    (hclash : (ns.bind rename raw).1.clash = none) : (ns.bind rename raw).2.Owned := by
  constructor
  · intro other spelling hother
    rw [lookup_bind] at hother
    split at hother
    · rename_i heq
      rwa [heq]
    · exact h.solid other spelling hother
  · intro other spelling hother
    rw [lookup_bind] at hother
    rw [owners_bind]
    split at hother
    · rename_i heq
      rw [if_pos (Option.some.inj hother).symm, heq]
    · rename_i hne
      have howner := h.owner other spelling hother
      -- the spelling of another name is not the one that is taken now, which would clash
      rw [if_neg, howner]
      rintro rfl
      have hmem := mem_clash_iff.2 ⟨howner, hne, h.solid other _ hother⟩
      rw [hclash] at hmem
      cases hmem

end Bind

/-- **Bindings without a clash, one after the other.** -/
theorem Owned.bindAll {ns : Names} (h : ns.Owned) {calls : List Call}
    (hcalls : ∀ c ∈ calls, c.raw ≠ []) (hclash : ∀ b ∈ (ns.bindAll calls).1, b.clash = none) :
    (ns.bindAll calls).2.Owned := by
  induction calls generalizing ns with
  | nil => exact h
  | cons c calls ih =>
    obtain ⟨hc, hcalls⟩ := List.forall_mem_cons.1 hcalls
    obtain ⟨hfirst, hrest⟩ := List.forall_mem_cons.1 hclash
    exact ih (h.bind hc hfirst) hcalls hrest

/-- A clash is with another name. -/
theorem ne_raw_of_mem_clash {ns : Names} {calls : List Call} {b : Binding} {other : Text}
    (hb : b ∈ (ns.bindAll calls).1) (hother : other ∈ b.clash) : other ≠ b.raw := by
  induction calls generalizing ns with
  | nil => cases hb
  | cons c calls ih =>
    rcases List.mem_cons.1 hb with rfl | hb
    · exact (mem_clash_iff.1 hother).2.1
    · exact ih hb

/-- A name that is bound has the spelling that the renaming gives it. -/
theorem Maps.lookup_of_isSome {rename : Text → Text} {bound : List Text} {ns : Names}
    (h : ns.Maps rename bound) {raw : Text} (hraw : (ns.lookup raw).isSome) :
    ns.lookup raw = some (rename raw) := by
  rw [h raw] at hraw ⊢
  split
  · rfl
  · rename_i hnot
    rw [if_neg hnot] at hraw
    cases hraw

theorem bindAll_append (ns : Names) (calls more : List Call) :
    ns.bindAll (calls ++ more) =
      ((ns.bindAll calls).1 ++ ((ns.bindAll calls).2.bindAll more).1,
        ((ns.bindAll calls).2.bindAll more).2) := by
  induction calls generalizing ns with
  | nil => rfl
  | cons c calls ih => simp only [List.cons_append, bindAll, ih]

end Names

/-! ## The bindings of a run -/

/-- The names that statements bind. -/
def Placed.bindings (ps : List Placed) : List Token := ps.flatMap (·.statement.bindings)

theorem Placed.bindings_cons (p : Placed) (ps : List Placed) :
    bindings (p :: ps) = p.statement.bindings ++ bindings ps := List.flatMap_cons

namespace Source.Tokens

variable (src : Source.Tokens) (rename : Text → Text)

/-- The calls that bind the names of tokens. -/
def calls (ts : List Token) : List Names.Call := ts.map fun t => ⟨rename, src.text t⟩

theorem calls_append (ts us : List Token) :
    src.calls rename (ts ++ us) = src.calls rename ts ++ src.calls rename us := List.map_append

theorem foldl_use_bind (ns : Names) (ts : List Token) :
    (ts.map .bind).foldl (Names.use rename src.text) ns =
      (ns.bindAll (src.calls rename ts)).2 := by
  induction ts generalizing ns with
  | nil => rfl
  | cons t ts ih => exact ih _

theorem collisions_append (ns : Names) (ts us : List Token) :
    src.collisions rename ns (ts ++ us) = src.collisions rename ns ts ++
      src.collisions rename (ns.bindAll (src.calls rename ts)).2 us := by
  induction ts generalizing ns with
  | nil => rfl
  | cons t ts ih =>
    rw [List.cons_append, collisions, collisions, ih, List.append_assoc]
    rfl

/-- Where nothing is reported no binding clashes. -/
theorem clash_of_collisions {ns : Names} {ts : List Token}
    (h : src.collisions rename ns ts = []) :
    ∀ b ∈ (ns.bindAll (src.calls rename ts)).1, b.clash = none := by
  induction ts generalizing ns with
  | nil => exact List.forall_mem_nil _
  | cons t ts ih =>
    rw [collisions, List.append_eq_nil_iff] at h
    obtain ⟨hfirst, hrest⟩ := h
    refine List.forall_mem_cons.2 ⟨?_, ih hrest⟩
    rw [collision, List.map_eq_nil_iff, Option.toList_eq_nil_iff] at hfirst
    exact hfirst

end Source.Tokens

namespace Desk

variable (src : Source.Tokens) (style : Style)

theorem names_write_eq_bindAll (desk : Desk) (s : Statement) :
    (desk.write src style s).desk.names =
      (desk.names.bindAll (src.calls style.rename s.bindings)).2 := by
  rw [names_write, Statement.uses, List.foldl_append, foldl_use_refer, src.foldl_use_bind]

/-- **The table behind statements** is the one after all their bindings. -/
theorem names_after_eq_bindAll (desk : Desk) (ps : List Placed) :
    (desk.after src style ps).names =
      (desk.names.bindAll (src.calls style.rename (Placed.bindings ps))).2 := by
  induction ps generalizing desk with
  | nil => rfl
  | cons p ps ih =>
    rw [Placed.bindings_cons, src.calls_append, Names.bindAll_append, ← names_write_eq_bindAll]
    exact ih _

/-- **Statements report the collisions of all their bindings.** -/
theorem collisions_writeAll (desk : Desk) (ps : List Placed) :
    ((desk.writeAll src style ps).flatMap (·.reports)).filter (·.isCollision) =
      src.collisions style.rename desk.names (Placed.bindings ps) := by
  induction ps generalizing desk with
  | nil => rfl
  | cons p ps ih =>
    rw [writeAll, List.flatMap_cons, List.filter_append, collisions_write, ih,
      names_write_eq_bindAll, Placed.bindings_cons, src.collisions_append]

end Desk

/-! ## The names of a text -/

theorem ident_of_mem_readMoreParams (ts : List Token) :
    ∀ t ∈ (readMoreParams ts).value.1, t.kind = .ident := by
  fun_induction readMoreParams ts with
  | case1 => exact List.forall_mem_nil _
  | case2 => exact List.forall_mem_nil _
  | case3 c r _ p rest le heq more ih => exact List.forall_mem_cons.2 ⟨(expect_ok heq).2, ih⟩
  | case4 => exact List.forall_mem_nil _

theorem ident_of_mem_readParams (ts : List Token) :
    ∀ t ∈ (readParams ts).value.1, t.kind = .ident := by
  unfold readParams
  split
  · exact List.forall_mem_nil _
  · split
    · rename_i hp
      exact List.forall_mem_cons.2 ⟨hp, ident_of_mem_readMoreParams _⟩
    · exact List.forall_mem_nil _

theorem ident_of_mem_readFunction (keyword : Token) (ts : List Token) :
    ∀ t ∈ (readFunction keyword ts).value.bindings, t.kind = .ident := by
  unfold readFunction
  split
  · exact List.forall_mem_nil _
  · rename_i name r₁ le₁ hname
    have hname := (expect_ok hname).2
    split
    · exact List.forall_mem_singleton.2 hname
    · rename_i r₂ le₂ hparen
      have hparams := ident_of_mem_readParams r₂
      split
      · rename_i params fault rest le heq
        rw [heq] at hparams
        exact List.forall_mem_cons.2 ⟨hname, hparams⟩
      · rename_i params r₃ le₃ heq
        rw [heq] at hparams
        split <;> exact List.forall_mem_cons.2 ⟨hname, hparams⟩

theorem ident_of_mem_readStatement (trap : Bool) (t : Token) (ts : List Token) :
    ∀ u ∈ (readStatement trap t ts).value.bindings, u.kind = .ident := by
  unfold readStatement
  split
  · unfold readVariable
    split
    · exact List.forall_mem_nil _
    · rename_i name r₁ le₁ hname
      split
      · exact List.forall_mem_nil _
      · intro u hu
        rw [Statement.bindings] at hu
        split at hu
        · rw [List.mem_singleton.1 hu]
          exact (expect_ok hname).2
        · cases hu
  · unfold readPrint
    split <;> exact List.forall_mem_nil _
  · exact ident_of_mem_readFunction t ts
  · unfold readCallOrAssign
    split
    · exact List.forall_mem_nil _
    · split
      · exact List.forall_mem_nil _
      · split <;> exact List.forall_mem_nil _
  all_goals first | exact List.forall_mem_nil _ | (split <;> exact List.forall_mem_nil _)

/-- Only identifiers are bound. -/
theorem ident_of_mem_bindings (trap : Bool) (ts : List Token) :
    ∀ t ∈ Placed.bindings (readStatements trap ts), t.kind = .ident := by
  fun_induction readStatements trap ts with
  | case1 => exact List.forall_mem_nil _
  | case2 t r s ih =>
    rw [Placed.bindings_cons]
    exact List.forall_mem_append.2 ⟨ident_of_mem_readStatement trap t r, ih⟩

/-- An identifier has a text. -/
theorem text_ne_nil_of_ident (file : FileId) {content : Text} (hsize : content.length < 2 ^ 32)
    {t : Token} (ht : t ∈ (tokenize file content).tokens) (hkind : t.kind = .ident) :
    t.text content ≠ [] := by
  obtain ⟨f, hf, rfl⟩ := List.mem_map.1 ht
  obtain ⟨before, s, rest, hcontent, hspan, hs⟩ :=
    (Cursor.start_at file content).spelledIn_fetchAll f hf
  rw [Token.text_of_span hcontent hspan hsize]
  rw [hkind] at hs
  exact hs.solid

/-- **No name that a run over a text binds is empty.** -/
theorem text_ne_nil_of_mem_bindings (file : FileId) {content : Text}
    (hsize : content.length < 2 ^ 32) :
    ∀ t ∈ Placed.bindings (TokenList.ofList file (tokenize file content).tokens).statements,
      t.text content ≠ [] := by
  intro t ht
  refine text_ne_nil_of_ident file hsize ?_ (ident_of_mem_bindings _ _ t ht)
  obtain ⟨p, hp, htp⟩ := List.mem_flatMap.1 ht
  have htokens := p.statement.sublist_bindings.subset htp
  exact TokenList.mem_of_mem_body ((sublist_tokens_readStatements _ _ p hp).subset htokens)

/-- Each name once: a collision that is found is reported. -/
theorem collisions_of_reports {file : FileId} {content : Option Text} {style : Style}
    {ts : List Token}
    (h : ∀ d ∈ (transpile file content style ts).reports, d.code ≠ .renameCollision) :
    Source.Tokens.collisions ⟨content, (TokenList.ofList file ts).finish⟩ style.rename {}
      (Placed.bindings (TokenList.ofList file ts).statements) = [] := by
  rw [← Desk.collisions_writeAll _ style {}, List.filter_eq_nil_iff]
  intro d hd hcollision
  obtain ⟨e, he, hsame⟩ := Diagnostic.exists_same_mem_distinctFrom [] hd
  have hmem := he.resolve_left List.not_mem_nil
  rw [Diagnostic.isCollision_eq_of_same hsame] at hcollision
  exact h e hmem (of_decide_eq_true hcollision)

/-- The table of a script is the one after all bindings of its statements. -/
theorem names_transpile_eq_bindAll (file : FileId) (content : Option Text) (style : Style)
    (ts : List Token) :
    (transpile file content style ts).names =
      (Names.bindAll {} (Source.Tokens.calls ⟨content, (TokenList.ofList file ts).finish⟩
        style.rename (Placed.bindings (TokenList.ofList file ts).statements))).2 := by
  rw [(followsUses_transpile file content style ts).names, ← Desk.names_after _ style {},
    Desk.names_after_eq_bindAll]

/-- **A run over a text without collisions keeps different names apart.** -/
theorem injective_names_transpile (file : FileId) {content : Text}
    (hsize : content.length < 2 ^ 32) (style : Style)
    (h : ∀ d ∈ (transpile file (some content) style (tokenize file content).tokens).reports,
      d.code ≠ .renameCollision) :
    (transpile file (some content) style (tokenize file content).tokens).names.Injective := by
  rw [names_transpile_eq_bindAll]
  refine (Names.owned_empty.bindAll ?_ ?_).injective
  · intro c hc
    obtain ⟨t, ht, rfl⟩ := List.mem_map.1 hc
    exact text_ne_nil_of_mem_bindings file hsize t ht
  · exact Source.Tokens.clash_of_collisions _ _ (collisions_of_reports h)

/-- **Different names have different spellings unless a clash is told.**  Names that are not
empty are bound one after the other, whatever spelling each gets at each binding.  If no
binding tells of a clash, the table keeps all names apart; if two of its names share a
spelling, one of the bindings told of a clash, and with another name than its own.

So it is in every run over a text: the run comes to its end, its script spells names as its
table does, and if no collision is among all that it reports, the table keeps all names apart
and no two names that were bound are spelled alike. -/
theorem spellings_distinct_unless_clash {calls : List Names.Call}
    (hcalls : ∀ c ∈ calls, c.raw ≠ []) (file : FileId) (content : Text)
    (hsize : content.length < 2 ^ 32) (style : Style) :
    ((∀ b ∈ (Names.bindAll {} calls).1, b.clash = none) → (Names.bindAll {} calls).2.Injective) ∧
      (∀ x y spelling, x ≠ y → (Names.bindAll {} calls).2.lookup x = some spelling →
        (Names.bindAll {} calls).2.lookup y = some spelling →
          ∃ b ∈ (Names.bindAll {} calls).1, ∃ other ∈ b.clash, other ≠ b.raw) ∧
      ∃ script ∈ transpile? file (some content) style (tokenize file content).tokens,
        script.FollowsUses
          ⟨some content, (TokenList.ofList file (tokenize file content).tokens).finish⟩ style
          (TokenList.ofList file (tokenize file content).tokens).statements ∧
        ∀ n : Int, script.reports.length ≤ Bag.capacity n →
          (∀ d ∈ (Bag.ofList n script.reports).toList, d.code ≠ .renameCollision) →
            script.names.Injective ∧
            ∀ x y, (script.names.lookup x).isSome → (script.names.lookup y).isSome → x ≠ y →
              style.rename x ≠ style.rename y := by
  have hinjective : (∀ b ∈ (Names.bindAll {} calls).1, b.clash = none) →
      (Names.bindAll {} calls).2.Injective :=
    fun hclash => (Names.owned_empty.bindAll hcalls hclash).injective
  refine ⟨hinjective, fun x y spelling hne hx hy => ?_, ?_⟩
  · by_contra hnone
    refine hne (hinjective (fun b hb => ?_) x y spelling hx hy)
    rw [Option.eq_none_iff_forall_not_mem]
    exact fun other hother => hnone ⟨b, hb, other, hother, Names.ne_raw_of_mem_clash hb hother⟩
  · obtain ⟨body, last, -, hlist⟩ := TokenList.ofList_tokenize file content
    have hends : isEndless file (tokenize file content).tokens = false :=
      not_isEndless_of_trap (by rw [hlist])
    have hfollows := followsUses_transpile file (some content) style (tokenize file content).tokens
    refine ⟨_, by rw [transpile?, hends]; rfl, hfollows, fun n hn hnone => ?_⟩
    rw [Bag.toList_ofList, List.take_of_length_le hn] at hnone
    have hnames := injective_names_transpile file hsize style hnone
    refine ⟨hnames, fun x y hx hy hne heq => hne ?_⟩
    have hmaps := hfollows.table _ (List.prefix_refl _)
    rw [← hfollows.names] at hmaps
    refine hnames x y (style.rename x) (hmaps.lookup_of_isSome hx) ?_
    rw [heq]
    exact hmaps.lookup_of_isSome hy

/-- A spelling that goes from one name to another and back. -/
def passedOn : List Names.Call :=
  [⟨id, "a"⟩, ⟨fun _ => "a", "b"⟩, ⟨fun _ => "c", "b"⟩, ⟨fun _ => "c", "a"⟩]

/-- Behind the last binding two names share a spelling that neither of them had first, and a
binding told of it; two functions whose names are written in Latin letters are kept apart. -/
theorem spellings_distinct_unless_clash_passed :
    (∀ c ∈ passedOn, c.raw ≠ []) ∧
      (Names.bindAll {} passedOn).1.map (·.clash) = [none, some ↑"a", none, some ↑"b"] ∧
      (∃ b ∈ (Names.bindAll {} passedOn).1, ∃ other ∈ b.clash, other ≠ b.raw) ∧
      ∃ script ∈ transpile? 0 (some twoHeads) { rename := Latin.rename }
          (tokenize 0 twoHeads).tokens,
        script.names.spellings.map (·.2) = ["s", "S"] ∧ script.names.Injective := by
  have hcalls : ∀ c ∈ passedOn, c.raw ≠ [] := by decide
  have hread : isEndless 0 (tokenize 0 twoHeads).tokens = false := by decide +kernel
  obtain ⟨-, hclash, script, hscript, -, hinjective⟩ :=
    spellings_distinct_unless_clash hcalls 0 twoHeads (by decide) { rename := Latin.rename }
  refine ⟨hcalls, by decide, hclash "a" "b" "c" (by decide) (by decide) (by decide), script,
    hscript, ?_⟩
  rw [transpile?, hread] at hscript
  obtain rfl := Option.some.inj hscript
  generalize hs : transpile 0 (some twoHeads) { rename := Latin.rename }
    (tokenize 0 twoHeads).tokens = script at hinjective
  have heval : script.names.spellings.map (·.2) = ["s", "S"] ∧
      script.reports.length ≤ Bag.capacity 0 ∧
      ∀ d ∈ (Bag.ofList 0 script.reports).toList, d.code ≠ .renameCollision := by
    subst hs
    decide +kernel
  exact ⟨heval.1, (hinjective 0 heval.2.1 heval.2.2).1⟩

end Tarjuman
