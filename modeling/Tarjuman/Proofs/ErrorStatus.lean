/-
# The error status of a run

A run has errors if its bag holds one.  A bag keeps the diagnostics that come first,
whatever they are, so an error behind the limit is not seen: it is the position of
the first error among the findings that decides (`Job.hasErrors_run_iff`).  A limit
therefore changes the status of exactly those runs whose first error it cuts off
(`hasErrors_limited_eq_unlimited_iff`), and a warning about the store, which comes
first, moves the findings one place on.
-/

import Tarjuman.Proofs.JobRun

namespace Tarjuman

/-- The position of the first error; the number of diagnostics if there is none. -/
def firstError (ds : List Diagnostic) : Nat := ds.findIdx (·.isError)

theorem firstError_lt_length_iff (ds : List Diagnostic) :
    firstError ds < ds.length ↔ ∃ d ∈ ds, d.isError = true := List.findIdx_lt_length

/-- The first `n` diagnostics hold an error if the first error is one of them. -/
theorem any_isError_take_iff (n : Nat) (ds : List Diagnostic) :
    (ds.take n).any (·.isError) = true ↔ (∃ d ∈ ds, d.isError = true) ∧ firstError ds < n := by
  have htake : firstError (ds.take n) = min n (firstError ds) := List.findIdx_take
  rw [List.any_eq_true, ← firstError_lt_length_iff, ← firstError_lt_length_iff, htake,
    List.length_take]
  omega

/-- What is no error moves the first error on. -/
theorem firstError_append_of_none {ws : List Diagnostic} (hws : ∀ d ∈ ws, d.isError = false)
    (ds : List Diagnostic) : firstError (ws ++ ds) = ws.length + firstError ds := by
  have h : firstError ws = ws.length := List.findIdx_eq_length.2 hws
  have happend : firstError (ws ++ ds) =
      if firstError ws < ws.length then firstError ws else firstError ds + ws.length :=
    List.findIdx_append
  rw [happend, h, if_neg (Nat.lt_irrefl _), Nat.add_comm]

/-- What comes behind an error does not move it. -/
theorem firstError_append_of_exists {ds : List Diagnostic} (h : ∃ d ∈ ds, d.isError = true)
    (es : List Diagnostic) : firstError (ds ++ es) = firstError ds :=
  List.findIdx_append.trans (if_pos ((firstError_lt_length_iff ds).2 h))

/-- Whether the first `n` of some diagnostics hold an error, when there is none before
and none behind `ds`. -/
theorem any_isError_take_between_iff {ws es : List Diagnostic}
    (hws : ∀ d ∈ ws, d.isError = false) (hes : ∀ d ∈ es, d.isError = false) (n : Nat)
    (ds : List Diagnostic) :
    ((ws ++ (ds ++ es)).take n).any (·.isError) = true ↔
      (∃ d ∈ ds, d.isError = true) ∧ ws.length + firstError ds < n := by
  rw [any_isError_take_iff, firstError_append_of_none hws]
  constructor
  · rintro ⟨⟨d, hd, herror⟩, hlt⟩
    rcases List.mem_append.1 hd with hd | hd
    · rw [hws d hd] at herror
      exact nomatch herror
    rcases List.mem_append.1 hd with hd | hd
    · rw [firstError_append_of_exists ⟨d, hd, herror⟩] at hlt
      exact ⟨⟨d, hd, herror⟩, hlt⟩
    · rw [hes d hd] at herror
      exact nomatch herror
  · rintro ⟨h, hlt⟩
    rw [firstError_append_of_exists h]
    obtain ⟨d, hd, herror⟩ := h
    exact ⟨⟨d, List.mem_append_right _ (List.mem_append_left _ hd), herror⟩, hlt⟩

/-- A bag has the same errors after something was put in that is none. -/
theorem Bag.hasErrors_addAll {ds : List Diagnostic} (h : ∀ d ∈ ds, d.isError = false) (b : Bag) :
    (b.addAll ds).hasErrors = b.hasErrors := by
  have hnone : (ds.take (b.limit - b.size)).any (·.isError) = false :=
    List.any_eq_false.2 fun d hd => Bool.eq_false_iff.1 (h d (List.mem_of_mem_take hd))
  rw [hasErrors_eq_any, toList_addAll, List.any_append, hnone, Bool.or_false, ← hasErrors_eq_any]

namespace Job

variable {j : Job} {s : Shared}

/-- The report on timings is no error. -/
theorem hasErrors_closingBag (t : Timer) (b : Bag) :
    (j.closingBag t b).hasErrors = b.hasErrors := by
  have hinfo : ∀ d ∈ [j.timingReport t], d.isError = false := by
    rintro _ (_ | ⟨_, ⟨⟩⟩)
    rfl
  rw [closingBag, addAlways]
  split
  · split
    · refine (Bag.hasErrors_addAll ?_ _).trans rfl
      rw [Bag.toList_ofList]
      exact fun d hd => hinfo d (List.mem_of_mem_take hd)
    · exact Bag.hasErrors_addAll hinfo b
  · rfl

theorem openingWarning_not_error : ∀ d ∈ j.openingWarning s, d.isError = false := by
  rw [openingWarning, readWarning]
  split
  · exact List.forall_mem_nil _
  split
  · exact List.forall_mem_nil _
  split
  · exact List.forall_mem_nil _
  · rintro _ (_ | ⟨_, ⟨⟩⟩)
    rfl

theorem writeWarning_not_error : ∀ d ∈ j.writeWarning s, d.isError = false := by
  rw [writeWarning]
  split
  · exact List.forall_mem_nil _
  split
  · exact List.forall_mem_nil _
  · rintro _ (_ | ⟨_, ⟨⟩⟩)
    rfl

/-- **A run has errors if the first error of the file is within the limit.** -/
theorem hasErrors_run_iff (h : j.Honest s) :
    (j.run s).1.hasErrors = true ↔
      (∃ d ∈ j.findings, d.isError = true) ∧
        (j.openingWarning s).length + firstError j.findings < j.limit := by
  obtain ⟨bag, w, ⟨_, _, _, t, hbag⟩, hw, _, hlist⟩ := shows_run h
  have hnone : ∀ d ∈ w, d.isError = false := by
    rcases hw with rfl | rfl
    · exact nofun
    · exact writeWarning_not_error
  rw [Outcome.hasErrors, hbag, hasErrors_closingBag, Bag.hasErrors_eq_any, hlist]
  exact any_isError_take_between_iff openingWarning_not_error hnone _ _

end Job

/-- The options with another limit. -/
def BuildOptions.withLimit (o : BuildOptions) (n : Int) : BuildOptions :=
  { o with maxDiagnostics := n }

/-- **A limit changes the error status exactly if it cuts off the first error.**  With
no limit a bag still has a ceiling, and a warning about the store may come first. -/
theorem hasErrors_limited_eq_unlimited_iff (name content : Text) (o : BuildOptions) (n : Int)
    (store : Option Store) (s : Shared)
    (hlimited : (Job.ofSource name content (o.withLimit n) store).Honest s)
    (hunlimited : (Job.ofSource name content (o.withLimit 0) store).Honest s) :
    (transpileSource name content (o.withLimit n) store s).2.1.hasErrors =
        (transpileSource name content (o.withLimit 0) store s).2.1.hasErrors ↔
      ((∃ d ∈ (Job.ofSource name content o store).findings, d.isError = true) →
        (((Job.ofSource name content (o.withLimit n) store).openingWarning s).length +
            firstError (Job.ofSource name content o store).findings < Bag.capacity n ↔
          ((Job.ofSource name content (o.withLimit 0) store).openingWarning s).length +
            firstError (Job.ofSource name content o store).findings < Bag.ceiling)) := by
  rw [Bool.eq_iff_iff, Job.transpileSource_eq, Job.transpileSource_eq,
    Job.hasErrors_run_iff hlimited, Job.hasErrors_run_iff hunlimited]
  exact and_congr_right_iff

/-- A disk with a file where the directory of a store should be. -/
def blocked : Shared := { disk := { entries := [(["c"], .file [])] } }

/-- A warning about the store and one about a class declaration fill a bag of two, and
the error behind them, a name that is not bound, is not seen. -/
theorem hasErrors_limited_behind_warnings :
    (Job.ofSource [] "نوع \nx" (BuildOptions.withLimit {} 2) (some ⟨"/c"⟩)).Honest blocked ∧
      (Job.ofSource [] "نوع \nx" (BuildOptions.withLimit {} 0) (some ⟨"/c"⟩)).Honest blocked ∧
      (transpileSource [] "نوع \nx" (BuildOptions.withLimit {} 2) (some ⟨"/c"⟩)
          blocked).2.1.hasErrors ≠
        (transpileSource [] "نوع \nx" (BuildOptions.withLimit {} 0) (some ⟨"/c"⟩)
          blocked).2.1.hasErrors := by
  have honest (n : Int) (h : (Store.get ⟨"/c"⟩ blocked.disk
      (BuildOptions.cacheKey (.withLimit {} n) "نوع \nx")).toBool = false) :
      (Job.ofSource [] "نوع \nx" (BuildOptions.withLimit {} n) (some ⟨"/c"⟩)).Honest blocked := by
    refine ⟨nofun, ?_⟩
    rintro _ ⟨⟩ p hp
    exact nomatch h.symm.trans (congrArg Except.toBool hp)
  have h₂ := honest 2 (by decide +kernel)
  have h₀ := honest 0 (by decide +kernel)
  refine ⟨h₂, h₀, fun heq => ?_⟩
  have hiff := (hasErrors_limited_eq_unlimited_iff [] "نوع \nx" {} 2 _ blocked h₂ h₀).1 heq
  exact absurd hiff (by decide +kernel)

end Tarjuman
