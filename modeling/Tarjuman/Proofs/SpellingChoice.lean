/-
# Another spelling of names

Two runs over the same tokens that spell names differently go side by side.  Whether a
name is bound does not depend on how any name is spelled, and whether something is written
does not depend on what is written: a call that is whole has its parentheses, so not even
the empty spelling makes it the empty text (`Lexicon.text_call_ne_nil`).  So after each
statement the same names are bound and the same blocks are open, and the same was reported
but for names that collide (`Desk.Alike.write`), and this carries on along the statements
(`Desk.Alike.writeAll`).

Collisions are reported where a name is bound and nowhere else (`Desk.collisions_write`),
and none is as long as every name is its own spelling (`Names.collisions_of_ownSpelling`).
-/

import Tarjuman.Proofs.BoundBeforeUse
import Tarjuman.Proofs.SilentStatements

namespace Tarjuman

open StateTransition

/-! ## Findings -/

namespace Diagnostic

/-- The finding says that two names have one spelling. -/
def isCollision (d : Diagnostic) : Bool := d.code = .renameCollision

theorem isCollision_eq_of_same {a b : Diagnostic} (h : a.same b = true) :
    a.isCollision = b.isCollision := by
  simp only [same, decide_eq_true_eq] at h
  rw [isCollision, isCollision, h.1]

/-- Whether findings are left out before or after each is kept once does not matter, if those
that say the same are left out together. -/
theorem filter_distinctFrom {p : Diagnostic → Bool}
    (hp : ∀ a b : Diagnostic, a.same b = true → p a = p b) (seen ds : List Diagnostic) :
    (distinctFrom seen ds).filter p = distinctFrom (seen.filter p) (ds.filter p) := by
  have hany {seen : List Diagnostic} {d : Diagnostic} (hd : p d = true) :
      (seen.filter p).any (same d) = seen.any (same d) := by
    rw [List.any_filter]
    congr 1
    funext e
    cases hsame : d.same e with
    | false => exact Bool.and_false _
    | true => rw [← hp d e hsame, hd]; rfl
  fun_induction distinctFrom seen ds with
  | case1 => rfl
  | case2 seen d r hseen ih =>
    rw [ih, List.filter_cons]
    split
    · rename_i hd
      rw [distinctFrom, hany hd, if_pos hseen]
    · rfl
  | case3 seen d r hseen ih =>
    cases hd : p d with
    | true =>
      rw [List.filter_cons_of_pos hd, List.filter_cons_of_pos hd, distinctFrom, hany hd,
        if_neg hseen, ih, List.filter_cons_of_pos hd]
    | false =>
      have hd := Bool.eq_false_iff.1 hd
      rw [List.filter_cons_of_neg hd, List.filter_cons_of_neg hd, ih, List.filter_cons_of_neg hd]

/-- The findings without those about names that collide. -/
def withoutCollisions (ds : List Diagnostic) : List Diagnostic := ds.filter (!·.isCollision)

theorem withoutCollisions_distinct (ds : List Diagnostic) :
    withoutCollisions (distinct ds) = distinct (withoutCollisions ds) :=
  filter_distinctFrom (fun _ _ h => congrArg not (isCollision_eq_of_same h)) [] ds

theorem withoutCollisions_append (ds es : List Diagnostic) :
    withoutCollisions (ds ++ es) = withoutCollisions ds ++ withoutCollisions es :=
  List.filter_append ..

end Diagnostic

open Diagnostic (withoutCollisions withoutCollisions_append)

/-- The same findings, none of them about names that collide. -/
structure SameFindings (ds es : List Diagnostic) : Prop where
  eq : ds = es
  plain : ∀ d ∈ ds, d.isCollision = false

namespace SameFindings

theorem nil : SameFindings [] [] := ⟨rfl, List.forall_mem_nil _⟩

theorem single {d : Diagnostic} (h : d.isCollision = false) : SameFindings [d] [d] :=
  ⟨rfl, List.forall_mem_singleton.2 h⟩

theorem append {ds es ds' es' : List Diagnostic} (h : SameFindings ds es)
    (h' : SameFindings ds' es') : SameFindings (ds ++ ds') (es ++ es') :=
  ⟨by rw [h.eq, h'.eq], List.forall_mem_append.2 ⟨h.plain, h'.plain⟩⟩

theorem withoutCollisions_eq {ds es : List Diagnostic} (h : SameFindings ds es) :
    withoutCollisions ds = withoutCollisions es := congrArg withoutCollisions h.eq

theorem collisions {ds es : List Diagnostic} (h : SameFindings ds es) :
    ds.filter (·.isCollision) = [] :=
  List.filter_eq_nil_iff.2 fun d hd => Bool.eq_false_iff.1 (h.plain d hd)

end SameFindings

theorem Source.Tokens.isCollision_misplaced (src : Source.Tokens) (m : Misplaced) :
    (src.misplaced m).isCollision = false := by
  rw [misplaced]
  split <;> rfl

/-! ## Names that are bound -/

namespace Names

/-- The names that are bound, in the order in which they first were. -/
def raws (ns : Names) : List Text := ns.spellings.map (·.1)

theorem isSome_lookup (ns : Names) (raw : Text) :
    (ns.lookup raw).isSome = decide (raw ∈ ns.raws) := by
  rw [lookup, raws]
  induction ns.spellings with
  | nil => rfl
  | cons e r ih =>
    obtain ⟨k, v⟩ := e
    rw [lookup_cons]
    by_cases h : raw = k
    · simp [h]
    · simp [h, ih]

/-- A name that is bound again keeps its place. -/
theorem raws_bind (rename : Text → Text) (ns : Names) (raw : Text) :
    (ns.bind rename raw).2.raws = if raw ∈ ns.raws then ns.raws else ns.raws ++ [raw] := by
  show (put raw (rename raw) ns.spellings).map (·.1) = _
  rw [raws]
  induction ns.spellings with
  | nil => rfl
  | cons e r ih =>
    obtain ⟨k, v⟩ := e
    rw [put]
    split
    · rename_i h
      simp [h]
    · rename_i h
      rw [List.map_cons, ih]
      by_cases hraw : raw ∈ r.map (·.1)
      · simp [hraw]
      · simp [hraw, Ne.symm h]

end Names

/-! ## Expressions -/

/-- Two drafts that differ in the spelling of names only. -/
structure Draft.Alike (a b : Draft) : Prop where
  whole : a.text.isSome = b.text.isSome
  findings : SameFindings a.reports b.reports

namespace Lexicon

theorem isSome_text_expr (lx : Lexicon) (e : Expr) : (lx.expr e).text.isSome = e.isWhole := by
  rw [text_expr, Expr.isSome_spelled]

theorem isSome_text_operand (lx : Lexicon) (o : Operand) :
    (lx.operand o).text.isSome = o.isWhole := by
  rw [text_operand, Operand.isSome_spelled]

/-- **A call is never written as the empty text**, however its name is spelled. -/
theorem text_call_ne_nil (lx : Lexicon) (name : Token) (args : Arguments) :
    ∀ text ∈ (lx.operand (.call name args)).text, text ≠ [] := by
  rw [operand]
  dsimp only
  split
  · rintro text ⟨⟩
    exact List.append_ne_nil_of_right_ne_nil _ (by decide)
  · rintro text ⟨⟩

variable (src : Source.Tokens) {a b : Names}

/-- A reference is reported by both tables or by none. -/
theorem resolve_findings (h : a.raws = b.raws) (t : Token) :
    SameFindings (resolve ⟨src, a⟩ t).2 (resolve ⟨src, b⟩ t).2 := by
  have hbound : (a.lookup (src.text t)).isSome = (b.lookup (src.text t)).isSome := by
    rw [Names.isSome_lookup, Names.isSome_lookup, h]
  rw [resolve, resolve]
  dsimp only
  cases ha : a.lookup (src.text t) with
  | none =>
    rw [ha, Option.isSome_none, eq_comm, Option.isSome_eq_false_iff,
      Option.isNone_iff_eq_none] at hbound
    rw [hbound]
    exact .single rfl
  | some spelling =>
    rw [ha] at hbound
    obtain ⟨spelling', hb⟩ := Option.isSome_iff_exists.1 hbound.symm
    rw [hb]
    exact .nil

mutual
theorem operand_findings (h : a.raws = b.raws) : ∀ o : Operand,
    SameFindings (operand ⟨src, a⟩ o).reports (operand ⟨src, b⟩ o).reports
  | .name t => resolve_findings src h t
  | .literal _ => .nil
  | .call name args => by
    have hall := (resolve_findings src h name).append (arguments_findings h args)
    rw [operand, operand]
    cases args.closing <;> exact hall
  | .missing _ => .single rfl
theorem expr_findings (h : a.raws = b.raws) : ∀ e : Expr,
    SameFindings (expr ⟨src, a⟩ e).reports (expr ⟨src, b⟩ e).reports
  | .single l => operand_findings h l
  | .binary l op r => by
    have hall := (operand_findings h l).append (operand_findings h r)
    have hreports (lx : Lexicon) : (lx.expr (.binary l op r)).reports =
        (lx.operand l).reports ++ (lx.operand r).reports := by
      rw [expr]
      split <;> rfl
    rwa [hreports, hreports]
theorem arguments_findings (h : a.raws = b.raws) : ∀ args : Arguments,
    SameFindings (arguments ⟨src, a⟩ args).2 (arguments ⟨src, b⟩ args).2
  | .done .closed | .done .endless => .nil
  | .done (.missing _) => .single (src.isCollision_misplaced _)
  | .more e rest => by
    rw [arguments, arguments]
    exact (expr_findings h e).append (arguments_findings h rest)
end

theorem operand_alike (h : a.raws = b.raws) (o : Operand) :
    (operand ⟨src, a⟩ o).Alike (operand ⟨src, b⟩ o) :=
  ⟨by rw [isSome_text_operand, isSome_text_operand], operand_findings src h o⟩

theorem expr_alike (h : a.raws = b.raws) (e : Expr) :
    (expr ⟨src, a⟩ e).Alike (expr ⟨src, b⟩ e) :=
  ⟨by rw [isSome_text_expr, isSome_text_expr], expr_findings src h e⟩

theorem condition_alike (h : a.raws = b.raws) (c : Condition) :
    (condition ⟨src, a⟩ c).Alike (condition ⟨src, b⟩ c) := by
  cases c with
  | plain e => exact expr_alike src h e
  | compare l op r =>
    have htext (lx : Lexicon) : (lx.condition (.compare l op r)).text.isSome =
        (l.isWhole && r.isWhole) := by
      rw [condition, ← lx.isSome_text_expr l, ← lx.isSome_text_expr r]
      cases (lx.expr l).text <;> cases (lx.expr r).text <;> rfl
    have hreports (lx : Lexicon) : (lx.condition (.compare l op r)).reports =
        (lx.expr l).reports ++ (lx.expr r).reports := by
      rw [condition]
      split <;> rfl
    refine ⟨by rw [htext, htext], ?_⟩
    rw [hreports, hreports]
    exact (expr_findings src h l).append (expr_findings src h r)

end Lexicon

/-! ## Statements -/

/-- The same names are bound and the same blocks are open. -/
structure Desk.Alike (a b : Desk) : Prop where
  raws : a.names.raws = b.names.raws
  blocks : a.blocks = b.blocks

/-- Two written statements that differ in the spelling of names only. -/
structure Written.Alike (a b : Written) : Prop where
  silent : a.fragment = [] ↔ b.fragment = []
  findings : withoutCollisions a.reports = withoutCollisions b.reports
  desk : a.desk.Alike b.desk

/-- A statement that calls does so by a name with arguments. -/
def Statement.CallsByName : Statement → Prop
  | .call (.call _ _) => True
  | .call _ => False
  | _ => True

theorem callsByName_readStatement (trap : Bool) (t : Token) (ts : List Token) :
    (readStatement trap t ts).value.CallsByName := by
  rw [readStatement]
  split
  · rw [readVariable]
    split
    · trivial
    split <;> trivial
  · rw [readPrint]
    split <;> trivial
  · rw [readFunction]
    split
    · trivial
    split
    · trivial
    split
    · trivial
    split <;> trivial
  · cases ts with
    | nil => trivial
    | cons u r =>
      rw [readCallOrAssign]
      split
      · trivial
      split <;> trivial
  all_goals first | trivial | (split <;> trivial)

theorem callsByName_readStatements (trap : Bool) (ts : List Token) :
    ∀ p ∈ readStatements trap ts, p.statement.CallsByName := by
  fun_induction readStatements trap ts with
  | case1 => exact List.forall_mem_singleton.2 trivial
  | case2 t r s ih => exact List.forall_mem_cons.2 ⟨callsByName_readStatement trap t r, ih⟩

namespace Desk

variable (src : Source.Tokens) (style : Style)

/-- Binding a name reports that it was bound before and that it collides with another. -/
theorem withoutCollisions_bind (warn : Bool) (desk : Desk) (t : Token) :
    withoutCollisions (desk.bind src style warn t).2.1 =
      if decide (src.text t ∈ desk.names.raws) && warn then
        [Diagnostic.warning .redeclared t.span
          ((src.text t).quoted ++ " is already declared; the new declaration replaces it")]
      else [] := by
  rw [← Names.isSome_lookup, bind]
  dsimp only [Names.bind]
  rw [withoutCollisions_append]
  split <;> split <;> rfl

end Desk

namespace Desk.Alike

variable (src : Source.Tokens) (style : Style) (r₁ r₂ : Text → Text) {a b : Desk}

theorem bind (h : a.Alike b) (warn : Bool) (t : Token) :
    withoutCollisions (a.bind src { style with rename := r₁ } warn t).2.1 =
        withoutCollisions (b.bind src { style with rename := r₂ } warn t).2.1 ∧
      (a.bind src { style with rename := r₁ } warn t).2.2.Alike
        (b.bind src { style with rename := r₂ } warn t).2.2 := by
  refine ⟨by rw [withoutCollisions_bind, withoutCollisions_bind, h.raws], ?_, h.blocks⟩
  show (a.names.bind r₁ (src.text t)).2.raws = (b.names.bind r₂ (src.text t)).2.raws
  rw [Names.raws_bind, Names.raws_bind, h.raws]

theorem bindParams (h : a.Alike b) (ts : List Token) :
    withoutCollisions (a.bindParams src { style with rename := r₁ } ts).2.1 =
        withoutCollisions (b.bindParams src { style with rename := r₂ } ts).2.1 ∧
      (a.bindParams src { style with rename := r₁ } ts).2.2.Alike
        (b.bindParams src { style with rename := r₂ } ts).2.2 := by
  induction ts generalizing a b with
  | nil => exact ⟨rfl, h⟩
  | cons t r ih =>
    obtain ⟨hfirst, hdesk⟩ := h.bind src style r₁ r₂ false t
    obtain ⟨hmore, hlast⟩ := ih hdesk
    refine ⟨?_, hlast⟩
    rw [Desk.bindParams, Desk.bindParams]
    dsimp only
    rw [withoutCollisions_append, withoutCollisions_append, hfirst, hmore]

theorem push (h : a.Alike b) (kind : BlockKind) (keyword : Token) :
    (a.push kind keyword).Alike (b.push kind keyword) :=
  ⟨h.raws, congrArg (List.cons _) h.blocks⟩

/-- A statement around an expression that is whole is not empty. -/
theorem wrap (h : a.Alike b) {d e : Draft} (hdraft : d.Alike e) {f g : Text → Text}
    (hf : ∀ v ∈ d.text, f v ≠ []) (hg : ∀ v ∈ e.text, g v ≠ []) :
    (a.wrap d f).Alike (b.wrap e g) := by
  refine ⟨?_, hdraft.findings.withoutCollisions_eq, h⟩
  have hwhole := hdraft.whole
  rw [Desk.wrap, Desk.wrap]
  dsimp only
  cases hd : d.text with
  | none =>
    rw [hd, Option.isSome_none, eq_comm, Option.isSome_eq_false_iff,
      Option.isNone_iff_eq_none] at hwhole
    rw [hwhole]
    exact iff_of_true rfl rfl
  | some v =>
    rw [hd] at hwhole
    obtain ⟨w, hw⟩ := Option.isSome_iff_exists.1 hwhole.symm
    rw [hw]
    exact iff_of_false (hf v hd) (hg w hw)

theorem wrap_around (h : a.Alike b) {d e : Draft} (hdraft : d.Alike e)
    (before before' : Text) {behind : Text} (hbehind : behind ≠ []) :
    (a.wrap d fun v => before ++ v ++ behind).Alike (b.wrap e fun v => before' ++ v ++ behind) :=
  h.wrap hdraft (fun _ _ => List.append_ne_nil_of_right_ne_nil _ hbehind)
    fun _ _ => List.append_ne_nil_of_right_ne_nil _ hbehind

theorem declare (h : a.Alike b) (name : Token) (quoted : Bool) (value : Expr) :
    (a.declare src { style with rename := r₁ } name quoted value).Alike
      (b.declare src { style with rename := r₂ } name quoted value) := by
  obtain ⟨hwhole, hvalue⟩ := Lexicon.expr_alike src h.raws value
  obtain ⟨hname, hdesk⟩ := h.bind src style r₁ r₂ true name
  rw [Desk.declare, Desk.declare]
  dsimp only
  cases ha : (Lexicon.expr ⟨src, a.names⟩ value).text with
  | none =>
    rw [ha, Option.isSome_none, eq_comm, Option.isSome_eq_false_iff,
      Option.isNone_iff_eq_none] at hwhole
    rw [hwhole]
    exact ⟨iff_of_true rfl rfl, hvalue.withoutCollisions_eq, h⟩
  | some v =>
    rw [ha] at hwhole
    obtain ⟨w, hb⟩ := Option.isSome_iff_exists.1 hwhole.symm
    rw [hb]
    refine ⟨iff_of_false (List.append_ne_nil_of_right_ne_nil _ (by decide))
      (List.append_ne_nil_of_right_ne_nil _ (by decide)), ?_, hdesk⟩
    rw [withoutCollisions_append, withoutCollisions_append, hvalue.withoutCollisions_eq, hname]

theorem function (h : a.Alike b) (keyword : Token) (name : Option Token) (params : List Token)
    (fault : Option Misplaced) :
    (a.function src { style with rename := r₁ } keyword name params fault).Alike
      (b.function src { style with rename := r₂ } keyword name params fault) := by
  have hpush := h.push .function keyword
  cases name with
  | none => exact ⟨iff_of_true rfl rfl, rfl, hpush⟩
  | some name =>
    obtain ⟨hname, hbound⟩ := hpush.bind src style r₁ r₂ true name
    obtain ⟨hparams, hdesk⟩ := hbound.bindParams src style r₁ r₂ params
    rw [Desk.function, Desk.function]
    refine ⟨?_, ?_, hdesk⟩
    · dsimp only
      split
      · exact iff_of_true rfl rfl
      · exact iff_of_false (List.append_ne_nil_of_right_ne_nil _ (by decide))
          (List.append_ne_nil_of_right_ne_nil _ (by decide))
    · dsimp only
      rw [withoutCollisions_append, withoutCollisions_append, withoutCollisions_append,
        withoutCollisions_append, hname, hparams]

theorem close (h : a.Alike b) (keyword : Token) :
    (a.close { style with rename := r₁ } keyword).Alike
      (b.close { style with rename := r₂ } keyword) := by
  rw [Desk.close, Desk.close, h.blocks]
  split
  · exact ⟨Iff.rfl, rfl, h.raws, rfl⟩
  · dsimp only
    split <;> exact ⟨Iff.rfl, rfl, h⟩

theorem otherwise (h : a.Alike b) (keyword : Token) :
    (a.otherwise { style with rename := r₁ } keyword).Alike
      (b.otherwise { style with rename := r₂ } keyword) := by
  rw [Desk.otherwise, Desk.otherwise, h.blocks]
  split
  · exact ⟨Iff.rfl, rfl, h.raws, rfl⟩
  · dsimp only
    split <;> exact ⟨Iff.rfl, rfl, h⟩

theorem finish (h : a.Alike b) :
    (a.finish src { style with rename := r₁ }).Alike
      (b.finish src { style with rename := r₂ }) := by
  rw [Desk.finish, Desk.finish, h.blocks]
  exact ⟨Iff.rfl, rfl, h.raws, rfl⟩

/-- **One statement after the other, side by side.** -/
theorem write (h : a.Alike b) {s : Statement} (hs : s.CallsByName) :
    (a.write src { style with rename := r₁ } s).Alike
      (b.write src { style with rename := r₂ } s) := by
  have hexpr (e : Expr) := Lexicon.expr_alike src h.raws e
  have hcondition (c : Condition) := Lexicon.condition_alike src h.raws c
  cases s with
  | declare name quoted value => exact h.declare src style r₁ r₂ name quoted value
  | print value =>
    exact h.wrap_around (hexpr value) _ _ (by decide)
  | function keyword name params fault => exact h.function src style r₁ r₂ keyword name params fault
  | call callee =>
    cases callee with
    | call name args =>
      exact h.wrap (Lexicon.operand_alike src h.raws _) (Lexicon.text_call_ne_nil _ name args)
        (Lexicon.text_call_ne_nil _ name args)
    | name t => exact hs.elim
    | literal t => exact hs.elim
    | missing found => exact hs.elim
  | assign name value =>
    obtain ⟨hwhole, hvalue⟩ := hexpr value
    have htarget := (Lexicon.resolve_findings src h.raws name).append hvalue
    have hdraft : Draft.Alike
        ⟨(Lexicon.expr ⟨src, a.names⟩ value).text, (Lexicon.resolve ⟨src, a.names⟩ name).2 ++
          (Lexicon.expr ⟨src, a.names⟩ value).reports⟩
        ⟨(Lexicon.expr ⟨src, b.names⟩ value).text, (Lexicon.resolve ⟨src, b.names⟩ name).2 ++
          (Lexicon.expr ⟨src, b.names⟩ value).reports⟩ := ⟨hwhole, htarget⟩
    exact h.wrap_around hdraft _ _ (by decide)
  | close keyword => exact h.close style r₁ r₂ keyword
  | whileLoop keyword c =>
    exact (h.push .whileLoop keyword).wrap_around (hcondition c) _ _ (by decide)
  | ifBranch keyword c =>
    exact (h.push .ifBranch keyword).wrap_around (hcondition c) _ _ (by decide)
  | elseBranch keyword => exact h.otherwise style r₁ r₂ keyword
  | giveBack value =>
    cases value with
    | none => exact ⟨Iff.rfl, rfl, h⟩
    | some value =>
      exact h.wrap_around (hexpr value) _ _ (by decide)
  | finish => exact h.finish src style r₁ r₂
  | raw t => exact ⟨Iff.rfl, rfl, h⟩
  | forLoop keyword => exact ⟨Iff.rfl, rfl, h⟩
  | classHead keyword => exact ⟨Iff.rfl, rfl, h⟩
  | broken fault => exact ⟨Iff.rfl, rfl, h⟩
  | stray t => exact ⟨Iff.rfl, rfl, h⟩

/-- **All statements, side by side.** -/
theorem writeAll (h : a.Alike b) {ps : List Placed} (hps : ∀ p ∈ ps, p.statement.CallsByName) :
    List.Forall₂ Written.Alike (a.writeAll src { style with rename := r₁ } ps)
      (b.writeAll src { style with rename := r₂ } ps) := by
  induction ps generalizing a b with
  | nil => exact .nil
  | cons p ps ih =>
    obtain ⟨hp, hps⟩ := List.forall_mem_cons.1 hps
    have hstep := h.write src style r₁ r₂ hp
    exact .cons hstep (ih hstep.desk hps)

end Desk.Alike

/-! ## Collisions -/

/-- The report of a binding that another name has the spelling of. -/
def Source.Tokens.collision (src : Source.Tokens) (rename : Text → Text) (ns : Names) (t : Token) :
    List Diagnostic :=
  (ns.bind rename (src.text t)).1.clash.toList.map fun other =>
    Diagnostic.warning .renameCollision t.span
      (other.quoted ++ " and " ++ (src.text t).quoted ++ " are both emitted as " ++
        (rename (src.text t)).quoted)

/-- The reports of bindings, one after the other, that other names have the spelling of. -/
def Source.Tokens.collisions (src : Source.Tokens) (rename : Text → Text) :
    Names → List Token → List Diagnostic
  | _, [] => []
  | ns, t :: r =>
    src.collision rename ns t ++ src.collisions rename (ns.bind rename (src.text t)).2 r

namespace Desk

variable (src : Source.Tokens) (style : Style)

theorem collisions_bind (warn : Bool) (desk : Desk) (t : Token) :
    (desk.bind src style warn t).2.1.filter (·.isCollision) =
      src.collision style.rename desk.names t := by
  rw [bind, Source.Tokens.collision]
  dsimp only
  rw [List.filter_append]
  cases (desk.names.bind style.rename (src.text t)).1.clash with
  | none => split <;> rfl
  | some other => split <;> rfl

theorem collisions_bindParams (desk : Desk) (ts : List Token) :
    (desk.bindParams src style ts).2.1.filter (·.isCollision) =
      src.collisions style.rename desk.names ts := by
  induction ts generalizing desk with
  | nil => rfl
  | cons t r ih =>
    rw [bindParams]
    dsimp only
    rw [List.filter_append, collisions_bind, ih]
    rfl

/-- **Collisions are reported where names are bound**, each against the names bound before. -/
theorem collisions_write (desk : Desk) (s : Statement) :
    (desk.write src style s).reports.filter (·.isCollision) =
      src.collisions style.rename desk.names s.bindings := by
  have hexpr (e : Expr) := (Lexicon.expr_findings src (a := desk.names) rfl e).collisions
  have hcondition (c : Condition) :=
    (Lexicon.condition_alike src (a := desk.names) rfl c).findings.collisions
  have hfaults (fault : Option Misplaced) :
      (fault.toList.map src.misplaced).filter (·.isCollision) = [] := by
    cases fault with
    | none => rfl
    | some m => simp [src.isCollision_misplaced]
  cases s with
  | declare name quoted value =>
    have hwhole := Lexicon.isSome_text_expr ⟨src, desk.names⟩ value
    rw [write, declare, Statement.bindings, ← hwhole]
    dsimp only
    cases (Lexicon.expr ⟨src, desk.names⟩ value).text with
    | none => exact hexpr value
    | some v =>
      dsimp only [Option.isSome_some]
      rw [if_pos rfl, List.filter_append, hexpr, collisions_bind, List.nil_append]
      exact (List.append_nil _).symm
  | print value => exact hexpr value
  | function keyword name params fault =>
    cases name with
    | none => exact hfaults fault
    | some name =>
      rw [write, function]
      dsimp only
      rw [List.filter_append, List.filter_append, collisions_bind, collisions_bindParams, hfaults,
        List.append_nil]
      rfl
  | call callee => exact (Lexicon.operand_findings src (a := desk.names) rfl callee).collisions
  | assign name value =>
    exact ((Lexicon.resolve_findings src (a := desk.names) rfl name).append
      (Lexicon.expr_findings src rfl value)).collisions
  | close keyword =>
    rw [write, close]
    split
    · rfl
    · split <;> rfl
  | whileLoop keyword c => exact hcondition c
  | ifBranch keyword c => exact hcondition c
  | elseBranch keyword =>
    rw [write, otherwise]
    split
    · rfl
    · split <;> rfl
  | giveBack value =>
    cases value with
    | none => rfl
    | some value => exact hexpr value
  | broken fault => exact hfaults (some fault)
  | finish =>
    rw [write, finish]
    dsimp only
    split
    · refine List.filter_eq_nil_iff.2 fun d hd => ?_
      obtain ⟨b, -, rfl⟩ := List.mem_map.1 hd
      exact Bool.false_ne_true
    · rfl
  | _ => rfl

end Desk

namespace Names

/-- Every spelling belongs to the name that it is. -/
def OwnSpelling (ns : Names) : Prop :=
  ∀ spelling raw, ns.owners.lookup spelling = some raw → raw = spelling

theorem OwnSpelling.bind {ns : Names} (h : ns.OwnSpelling) (raw : Text) :
    (ns.bind id raw).2.OwnSpelling := by
  intro spelling other hother
  replace hother : (put raw raw ns.owners).lookup spelling = some other := hother
  rw [lookup_put] at hother
  split at hother
  · rename_i heq
    rw [heq]
    exact (Option.some.inj hother).symm
  · exact h spelling other hother

theorem OwnSpelling.foldl_use {ns : Names} (h : ns.OwnSpelling) (text : Token → Text)
    (us : List NameUse) : (us.foldl (use id text) ns).OwnSpelling := by
  induction us generalizing ns with
  | nil => exact h
  | cons u us ih =>
    cases u with
    | bind t => exact ih (h.bind (text t))
    | refer t => exact ih h

/-- No name collides with itself. -/
theorem collisions_of_ownSpelling {ns : Names} (h : ns.OwnSpelling) (src : Source.Tokens)
    (ts : List Token) : src.collisions id ns ts = [] := by
  induction ts generalizing ns with
  | nil => rfl
  | cons t r ih =>
    have hclash : (ns.bind id (src.text t)).1.clash = none := by
      show (ns.owners.lookup (src.text t)).filter _ = none
      refine Option.filter_eq_none_iff.2 fun other hother => ?_
      rw [h _ other hother]
      simp
    rw [Source.Tokens.collisions, Source.Tokens.collision, hclash, ih (h.bind (src.text t))]
    rfl

end Names

/-- **Names that are their own spellings never collide.** -/
theorem Desk.collisions_writeAll_id {src : Source.Tokens} {style : Style}
    (hstyle : style.rename = id) {desk : Desk} (h : desk.names.OwnSpelling) (ps : List Placed) :
    ∀ w ∈ desk.writeAll src style ps, w.reports.filter (·.isCollision) = [] := by
  induction ps generalizing desk with
  | nil => exact List.forall_mem_nil _
  | cons p ps ih =>
    refine List.forall_mem_cons.2 ⟨?_, ih ?_⟩
    · rw [collisions_write, hstyle]
      exact Names.collisions_of_ownSpelling h src _
    · rw [names_write, hstyle]
      exact h.foldl_use src.text _

/-! ## Scripts -/

namespace Script

/-- The fragments of the script are those of the statements, behind the mark at the start if
there is one. -/
def WrittenFrom (src : Source.Tokens) (style : Style) (ps : List Placed) (script : Script) : Prop :=
  script.fragments = (if style.prelude then [Style.openingBanner] else []) ++
    (Desk.writeAll src style {} ps).map (·.fragment)

/-- Two scripts that differ in the spelling of names only. -/
structure Alike (a b : Script) : Prop where
  /-- There are as many fragments, and the same ones are empty. -/
  fragments : List.Forall₂ (fun f g => f = [] ↔ g = []) a.fragments b.fragments
  /-- The same names are bound. -/
  raws : a.names.raws = b.names.raws
  /-- The same is reported in the same order, but for names that collide. -/
  findings : withoutCollisions a.reports = withoutCollisions b.reports

end Script

/-- What statements report, taken together. -/
theorem Written.Alike.flatMap_reports {ws vs : List Written}
    (h : List.Forall₂ Written.Alike ws vs) :
    withoutCollisions (ws.flatMap (·.reports)) = withoutCollisions (vs.flatMap (·.reports)) := by
  induction h with
  | nil => rfl
  | cons hfirst _ ih =>
    rw [List.flatMap_cons, List.flatMap_cons, withoutCollisions_append, withoutCollisions_append,
      hfirst.findings, ih]

theorem transpile_alike (file : FileId) (content : Option Text) (style : Style)
    (r₁ r₂ : Text → Text) (ts : List Token) :
    (transpile file content { style with rename := r₁ } ts).Alike
      (transpile file content { style with rename := r₂ } ts) := by
  have hall := Desk.Alike.writeAll ⟨content, (TokenList.ofList file ts).finish⟩ style r₁ r₂
    (a := {}) (b := {}) ⟨rfl, rfl⟩
    (callsByName_readStatements (TokenList.ofList file ts).trap (TokenList.ofList file ts).body)
  have hnames (r : Text → Text) :=
    (followsUses_transpile file content { style with rename := r } ts).names
  have hraws (us : List NameUse) (text : Token → Text) {a b : Names} (hab : a.raws = b.raws) :
      (us.foldl (Names.use r₁ text) a).raws = (us.foldl (Names.use r₂ text) b).raws := by
    induction us generalizing a b with
    | nil => exact hab
    | cons u us ih =>
      refine ih ?_
      cases u with
      | bind t => rw [Names.use, Names.use, Names.raws_bind, Names.raws_bind, hab]
      | refer t => exact hab
  refine ⟨?_, ?_, ?_⟩
  · refine List.rel_append ?_ (List.forall₂_map_left_iff.2 (List.forall₂_map_right_iff.2
      (hall.imp fun _ _ h => h.silent)))
    dsimp only
    split
    · exact .cons Iff.rfl .nil
    · exact .nil
  · rw [hnames, hnames]
    exact hraws _ _ rfl
  · rw [transpile, transpile, Diagnostic.withoutCollisions_distinct,
      Diagnostic.withoutCollisions_distinct]
    exact congrArg Diagnostic.distinct (Written.Alike.flatMap_reports hall)

/-- With every name as it stands nothing collides. -/
theorem transpile_id_not_collision (file : FileId) (content : Option Text) (style : Style)
    (ts : List Token) :
    ∀ d ∈ (transpile file content { style with rename := id } ts).reports,
      d.code ≠ .renameCollision := by
  intro d hd hcode
  obtain ⟨w, hw, hd⟩ := List.mem_flatMap.1 (Diagnostic.mem_of_mem_distinctFrom hd)
  have hown : ({} : Desk).names.OwnSpelling := fun spelling raw h => by cases h
  have hnone := Desk.collisions_writeAll_id rfl hown _ w hw
  exact List.filter_eq_nil_iff.1 hnone d hd (decide_eq_true hcode)

/-- **The spelling of names shows in names only.**  Where the end of the input stands last or
nowhere, two runs that spell names differently both come to their ends.  They visit the same
statements, which part the tokens, and write one fragment for each; the same fragments are
empty, the same names are bound, and the same is reported in the same order but for names
that collide, also in bags with room for all findings.  If every name is its own spelling,
none collides. -/
theorem spelling_shows_in_names_only (file : FileId) (content : Option Text) (style : Style)
    (r₁ r₂ : Text → Text) (ts : List Token) (h : ∀ t ∈ ts.dropLast, t.kind ≠ .endOfInput) :
    ∃ last ∈ eval (Walk.step ts) {},
      ∃ a ∈ transpile? file content { style with rename := r₁ } ts,
      ∃ b ∈ transpile? file content { style with rename := r₂ } ts,
        PartsTokens ts (TokenList.ofList file ts).statements last.entered.reverse ∧
        a.WrittenFrom ⟨content, (TokenList.ofList file ts).finish⟩ { style with rename := r₁ }
          (TokenList.ofList file ts).statements ∧
        b.WrittenFrom ⟨content, (TokenList.ofList file ts).finish⟩ { style with rename := r₂ }
          (TokenList.ofList file ts).statements ∧
        a.Alike b ∧
        (∀ n : Int, a.reports.length ≤ Bag.capacity n → b.reports.length ≤ Bag.capacity n →
          withoutCollisions (Bag.ofList n a.reports).toList =
            withoutCollisions (Bag.ofList n b.reports).toList) ∧
        ∀ c ∈ transpile? file content { style with rename := id } ts,
          ∀ d ∈ c.reports, d.code ≠ .renameCollision := by
  have htrap := trap_ofList_of_dropLast file h
  obtain ⟨last, hlast, hentered⟩ := Walk.exists_entered htrap
  have hscript (r : Text → Text) : transpile? file content { style with rename := r } ts =
      some (transpile file content { style with rename := r } ts) := by
    rw [transpile?, not_isEndless_of_trap htrap]
    rfl
  have halike := transpile_alike file content style r₁ r₂ ts
  refine ⟨last, hlast, _, hscript r₁, _, hscript r₂, ?_, rfl, rfl, halike, ?_, ?_⟩
  · rw [hentered]
    exact partsTokens_statements htrap
  · intro n ha hb
    rw [Bag.toList_ofList, Bag.toList_ofList, List.take_of_length_le ha, List.take_of_length_le hb]
    exact halike.findings
  · intro c hc
    rw [hscript id] at hc
    obtain rfl := Option.some.inj hc
    exact transpile_id_not_collision file content style ts

/-- Two functions, the second with a class in it. -/
def twoHeads : Text := "تابع س()\nانتهى\nتابع ص()\nنوع \nانتهى"

/-- With nothing for every name the two names collide, and still the class is the only
statement that is not written. -/
theorem spelling_shows_in_names_only_blank :
    (∀ t ∈ (tokenize 0 twoHeads).tokens.dropLast, t.kind ≠ .endOfInput) ∧
      ∃ a ∈ transpile? 0 (some twoHeads) { rename := id } (tokenize 0 twoHeads).tokens,
      ∃ b ∈ transpile? 0 (some twoHeads) { rename := fun _ => [] } (tokenize 0 twoHeads).tokens,
        a.Alike b ∧ a.reports.map (·.code) = [.unsupported] ∧
        b.reports.map (·.code) = [.renameCollision, .unsupported] ∧
        b.fragments.map (·.isEmpty) = [false, false, false, true, false, false] := by
  have hends : ∀ t ∈ (tokenize 0 twoHeads).tokens.dropLast, t.kind ≠ .endOfInput := by
    decide +kernel
  have hread : isEndless 0 (tokenize 0 twoHeads).tokens = false := by decide +kernel
  obtain ⟨last, -, a, ha, b, hb, -, -, -, halike, -, -⟩ :=
    spelling_shows_in_names_only 0 (some twoHeads) {} id (fun _ => []) _ hends
  refine ⟨hends, a, ha, b, hb, halike, ?_⟩
  rw [transpile?, hread] at ha hb
  obtain rfl := Option.some.inj ha
  obtain rfl := Option.some.inj hb
  decide +kernel

end Tarjuman
