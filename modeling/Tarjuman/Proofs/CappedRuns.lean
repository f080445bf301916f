/-
# A limit only cuts off

What is found in a file does not depend on the limit of the bags, so a run with a limit shows the
fragments and the output of a run with none, and the first of its diagnostics.

A run of a job has three bags with one limit and may find its result in a cache, where it was
kept under the same limit; whichever way it goes, the findings come out cut at the limit
(`Job.Undisturbed.shows_findings`).  Inside the transpiler the findings are sent to a reporter that
passes each of them on once, to a bag and to another reporter (`Tarjuman.Diagnostic.Reporter`).
What one of the two makes of them is none of the other's business (`Reporter.reportAll_tee`), and
the repetitions are dropped before a bag can be full (`Reporter.reportAll_once`), so the other
reporter gets all findings and the bag the first of the same list (`transpileTo_eq`).
-/

import Mathlib.Order.Lattice
import Tarjuman.Proofs.CacheTransparency
import Tarjuman.Proofs.ErrorStatus
import Tarjuman.Proofs.StatementRanges

namespace Tarjuman

/-! ## Reporters -/

namespace Reporter

variable {σ τ : Type}

theorem reportAll_append (r : Reporter σ) (s : σ) (ds es : List Diagnostic) :
    r.reportAll s (ds ++ es) = r.reportAll (r.reportAll s ds) es := List.foldl_append

theorem reportAll_journal (kept : Array Diagnostic) (ds : List Diagnostic) :
    (journal.reportAll kept ds).toList = kept.toList ++ ds := by
  induction ds generalizing kept with
  | nil => exact (List.append_nil _).symm
  | cons d ds ih =>
    refine (ih (kept.push d)).trans ?_
    rw [Array.toList_push, List.append_assoc]
    rfl

/-- Two reporters do not know of each other. -/
theorem reportAll_tee (r : Reporter σ) (q : Reporter τ) (s : σ) (t : τ) (ds : List Diagnostic) :
    (r.tee q).reportAll (s, t) ds = (r.reportAll s ds, q.reportAll t ds) := by
  induction ds generalizing s t with
  | nil => rfl
  | cons d ds ih => exact ih (r.report s d) (q.report t d)

/-- What is passed on once is the list without its repetitions. -/
theorem reportAll_once (r : Reporter σ) (seen : List Diagnostic) (s : σ) (ds : List Diagnostic) :
    (r.once.reportAll (seen, s) ds).2 = r.reportAll s (Diagnostic.distinctFrom seen ds) := by
  induction ds generalizing seen s with
  | nil => rfl
  | cons d ds ih =>
    have hstep : r.once.reportAll (seen, s) (d :: ds) =
        r.once.reportAll (r.once.report (seen, s) d) ds := rfl
    rw [hstep, once, Diagnostic.distinctFrom]
    dsimp only
    split
    · exact ih seen s
    · exact ih (d :: seen) (r.report s d)

end Reporter

/-- Statements are written as without a reporter, and it is sent all that is found. -/
theorem Desk.writeTo_eq {σ : Type} (r : Reporter σ) (src : Source.Tokens) (style : Style)
    (desk : Desk) (s : σ) (ps : List Placed) :
    Desk.writeTo r src style desk s ps =
      ((Desk.writeAll src style desk ps).map (·.fragment),
        r.reportAll s ((Desk.writeAll src style desk ps).flatMap (·.reports))) := by
  induction ps generalizing desk s with
  | nil => rfl
  | cons p ps ih =>
    rw [Desk.writeTo, ih, Desk.writeAll, List.map_cons, List.flatMap_cons, r.reportAll_append]

/-- **The bag holds the first of what the other reporter is sent.** -/
theorem transpileTo_eq {σ : Type} (extra : Reporter σ) (s : σ) (limit : Int) (file : FileId)
    (content : Option Text) (style : Style) (ts : List Token) :
    transpileTo extra s limit file content style ts =
      { fragments := (transpile file content style ts).fragments
        bag := .ofList limit (transpile file content style ts).reports
        extra := extra.reportAll s (transpile file content style ts).reports } := by
  have hsent (ds : List Diagnostic) :
      ((Reporter.bag.tee extra).once.reportAll ([], .new limit, s) ds).2 =
        (.ofList limit (Diagnostic.distinct ds), extra.reportAll s (Diagnostic.distinct ds)) :=
    (Reporter.reportAll_once _ _ _ ds).trans (Reporter.reportAll_tee ..)
  rw [transpileTo, Desk.writeTo_eq]
  exact congrArg (fun p : Bag × σ => Delivery.mk _ p.1 p.2) (hsent _)

/-! ## Limits -/

namespace Bag

theorem capacity_of_mem {n : Int} (hlow : 1 ≤ n) (hhigh : n ≤ 65535) : capacity n = n.toNat := by
  have hceiling : ceiling = 65535 := rfl
  rw [capacity, new]
  dsimp only
  rw [if_neg (by omega)]

theorem capacity_of_not_mem {n : Int} (h : n ≤ 0 ∨ 65535 < n) : capacity n = 65535 := by
  rw [capacity, new]
  exact if_pos h

end Bag

namespace Job

variable {j : Job} {s : Shared}

variable (j) in
/-- The caches do not fail the run of the job: they have no result for it but its own, and reading
the store works, and so does writing it if there is something to keep. -/
structure Undisturbed (s : Shared) : Prop where
  honest : j.Honest s
  reads : j.openingWarning s = []
  writes : (j.run s).1.cached = false → j.writeWarning s = []

/-- **A run shows the findings up to the limit**, wherever its result comes from. -/
theorem Undisturbed.shows_findings (h : j.Undisturbed s) (htimings : j.options.timings = false) :
    (j.run s).1.fragments = j.script.fragments ∧
      (j.run s).1.output = Script.render j.script.fragments j.options.separator ∧
      (j.run s).1.bag.toList = j.findings.take j.limit := by
  have hclose (t : Timer) (b : Bag) : j.closingBag t b = b := by
    rw [closingBag, htimings]
    exact if_neg Bool.false_ne_true
  cases j.run_ran s with
  | fromMemo has found shows =>
    obtain rfl := h.honest.memo _ has _ found
    obtain ⟨t, hbag⟩ := shows.bag_eq
    exact ⟨shows.fragments_eq, shows.output_eq, by rw [hbag, hclose, toList_addAll_payload]⟩
  | fromStore _ has found shows =>
    obtain rfl := h.honest.store _ has _ found
    obtain ⟨t, hbag⟩ := shows.bag_eq
    exact ⟨shows.fragments_eq, shows.output_eq, by rw [hbag, hclose, toList_addAll_payload]⟩
  | made missed _ shows cached =>
    obtain ⟨t, hbag⟩ := shows.bag_eq
    have hread : j.readWarning s = [] := (openingWarning_of_misses missed).symm.trans h.reads
    refine ⟨shows.fragments_eq, shows.output_eq, ?_⟩
    rw [hbag, hclose, hread, h.writes cached, Bag.addAll_append, Bag.addAll_append,
      toList_addAll_freshBag, List.nil_append, List.append_nil, List.take_take, Nat.min_self]

end Job

/-- What jobs share after requests were run one after the other. -/
def Request.sharedAfter (store : Option Store) (s : Shared) (rs : List Request) : Shared :=
  rs.foldl (fun s r => ((r.job store).run s).2) s

/-- **In a session the caches fail no run**: after any of its requests, whatever their limits, the
run of each of them is undisturbed. -/
theorem Faithful.undisturbed {store : Option Store} {kept : Digest → Payload → Prop} {s : Shared}
    {rs : List Request} (h : Faithful store kept s) (hrs : ∀ r ∈ rs, (r.job store).Keeps kept)
    {r : Request} (hr : (r.job store).Keeps kept) :
    (r.job store).Undisturbed (Request.sharedAfter store s rs) := by
  induction rs generalizing s with
  | nil =>
    exact ⟨Faithful.honest h hr, Faithful.openingWarning h hr, fun _ => Faithful.writeWarning h hr⟩
  | cons q qs ih =>
    obtain ⟨hq, hqs⟩ := List.forall_mem_cons.1 hrs
    exact ih (Faithful.run h hq) hqs

/-- **A limit only cuts off.**  With a limit between 1 and 65535 a source has the fragments and the
output that it has without a limit of its own, and its diagnostics are the first of those, as many
as the limit says; whatever caches the two runs have, as long as these do not fail.  And for tokens
with no end of the input but at their end, there is one list of findings that another reporter is
sent, whatever it is and whatever the limit, and of which the bag of the run holds the first. -/
theorem limit_only_truncates :
    (∀ (name content : Text) (o : BuildOptions) (n m : Int) (store store' : Option Store)
        (s s' : Shared),
      1 ≤ n → n ≤ 65535 → (m ≤ 0 ∨ 65535 < m) → o.timings = false →
      (Job.ofSource name content (o.withLimit n) store).Undisturbed s →
      (Job.ofSource name content (o.withLimit m) store').Undisturbed s' →
      (transpileSource name content (o.withLimit n) store s).2.1.fragments =
          (transpileSource name content (o.withLimit m) store' s').2.1.fragments ∧
        (transpileSource name content (o.withLimit n) store s).2.1.output =
          (transpileSource name content (o.withLimit m) store' s').2.1.output ∧
        (transpileSource name content (o.withLimit n) store s).2.1.bag.toList =
          (transpileSource name content (o.withLimit m) store' s').2.1.bag.toList.take n.toNat) ∧
    ∀ (file : FileId) (content : Option Text) (style : Style) (ts : List Token),
      (∀ t ∈ ts.dropLast, t.kind ≠ .endOfInput) →
      ∃ (fragments : List Text) (findings : List Diagnostic),
        ∀ (n : Int), 1 ≤ n → n ≤ 65535 → ∀ (σ : Type) (extra : Reporter σ) (s : σ),
          ∃ d ∈ transpileTo? extra s n file content style ts,
            d.fragments = fragments ∧ d.extra = extra.reportAll s findings ∧
              d.bag.toList = findings.take n.toNat := by
  constructor
  · intro name content o n m store store' s s' hlow hhigh hm htimings hcapped hfull
    obtain ⟨hfragments, houtput, hbag⟩ := hcapped.shows_findings htimings
    obtain ⟨hfragments', houtput', hbag'⟩ := hfull.shows_findings htimings
    rw [Job.transpileSource_eq, Job.transpileSource_eq]
    refine ⟨hfragments.trans hfragments'.symm, houtput.trans houtput'.symm, ?_⟩
    have hn : (Job.ofSource name content (o.withLimit n) store).limit = n.toNat :=
      Bag.capacity_of_mem hlow hhigh
    have hm : (Job.ofSource name content (o.withLimit m) store').limit = 65535 :=
      Bag.capacity_of_not_mem hm
    have hmin : min n.toNat 65535 = n.toNat := by omega
    rw [hbag, hbag', hn, hm, List.take_take, hmin]
    rfl
  · intro file content style ts hends
    refine ⟨(transpile file content style ts).fragments, (transpile file content style ts).reports,
      fun n hlow hhigh σ extra s => ⟨transpileTo extra s n file content style ts, ?_, ?_⟩⟩
    · rw [transpileTo?, not_isEndless_of_trap (trap_ofList_of_dropLast file hends)]
      rfl
    · rw [transpileTo_eq]
      dsimp only
      rw [Bag.toList_ofList, Bag.capacity_of_mem hlow hhigh]
      exact ⟨rfl, rfl, rfl⟩

/-- One content with room for one diagnostic and with no limit. -/
def twoLimits : List Request :=
  [⟨"a", "نوع \nx", BuildOptions.withLimit {} 1⟩, ⟨"a", "نوع \nx", BuildOptions.withLimit {} 0⟩]

/-- What is left of empty caches after both were run. -/
def cachesOfBoth : Shared := Request.sharedAfter (some ⟨"/cache"⟩) emptyCaches twoLimits

/-- Each request finds the result that was kept for its own limit, the first one in the store and the
second one in the memo. -/
theorem limit_only_truncates_kept :
    (∀ r ∈ twoLimits, (r.job (some ⟨"/cache"⟩)).Undisturbed cachesOfBoth ∧
      ((r.job (some ⟨"/cache"⟩)).run cachesOfBoth).1.cached = true) ∧
    (transpileSource "a" "نوع \nx" (BuildOptions.withLimit {} 1) (some ⟨"/cache"⟩)
        cachesOfBoth).2.1.bag.toList =
      (transpileSource "a" "نوع \nx" (BuildOptions.withLimit {} 0) (some ⟨"/cache"⟩)
        cachesOfBoth).2.1.bag.toList.take 1 ∧
    (∀ t ∈ brokenTokens.dropLast, t.kind ≠ .endOfInput) ∧
    ∃ d ∈ transpileTo? .journal #[] 1 0 none {} brokenTokens,
      d.bag.toList = d.extra.toList.take 1 := by
  have hfree : Digest.CollisionFree (twoLimits.flatMap Request.hashed) := by decide +kernel
  have hfits : ∀ r ∈ twoLimits, r.payload.Fits := by decide +kernel
  have hkinds : BuildOptions.KindsDecide (twoLimits.map Request.options) :=
    BuildOptions.kindsDecide_of_naming_eq (some .asWritten)
      (List.forall_mem_cons.2 ⟨rfl, List.forall_mem_singleton.2 rfl⟩)
  have hkeeps : ∀ r ∈ twoLimits, (r.job (some ⟨"/cache"⟩)).Keeps (Request.Kept twoLimits) :=
    fun r hr => Request.keeps_of_mem hr hfree hkinds fun _ => hfits r hr
  have hempty : Faithful (some ⟨"/cache"⟩) (Request.Kept twoLimits) emptyCaches := by
    refine ⟨?_, ?_⟩
    · rintro _ ⟨⟩ x hx
      cases hx
    · rintro _ ⟨⟩
      exact Store.Fresh.tidy ⟨⟨["cache"], by decide, by decide⟩, by decide⟩ _
  have hcached : ∀ r ∈ twoLimits,
      ((r.job (some ⟨"/cache"⟩)).run cachesOfBoth).1.cached = true := by decide +kernel
  have hwork : ∀ r ∈ twoLimits, (r.job (some ⟨"/cache"⟩)).Undisturbed cachesOfBoth :=
    fun r hr => hempty.undisturbed hkeeps (hkeeps r hr)
  have hends : ∀ t ∈ brokenTokens.dropLast, t.kind ≠ .endOfInput := by decide
  obtain ⟨hruns, htokens⟩ := limit_only_truncates
  refine ⟨fun r hr => ⟨hwork r hr, hcached r hr⟩, ?_, hends, ?_⟩
  · exact (hruns "a" "نوع \nx" {} 1 0 _ _ _ _ (by decide) (by decide) (.inl le_rfl) rfl
      (hwork _ List.mem_cons_self) (hwork _ (List.mem_cons_of_mem _ List.mem_cons_self))).2.2
  · obtain ⟨_, findings, h⟩ := htokens 0 none {} brokenTokens hends
    obtain ⟨d, hd, -, hextra, hbag⟩ := h 1 (by decide) (by decide) _ .journal #[]
    refine ⟨d, hd, ?_⟩
    rw [hbag, hextra, Reporter.reportAll_journal]
    rfl

end Tarjuman
