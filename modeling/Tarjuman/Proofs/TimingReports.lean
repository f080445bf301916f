/-
# The report on timings

A job that is to report on its timings puts the report into its bag when all else is in it, and
into a full bag by a merge, which makes room.  A merge does not go above the ceiling of all bags,
though.  So the report comes last and nothing else changes, whatever the limit of the bag is and
however full it is, with one exception: a bag that holds 65535 diagnostics is left as it is, and
the report is lost (`Job.toList_addAlways_eq_take`, `Job.report_lost_at_ceiling`).
-/

import Mathlib.Data.List.TakeDrop
import Mathlib.Data.Nat.Basic
import Mathlib.Order.Basic
import Tarjuman.Proofs.BagOperations
import Tarjuman.Proofs.JobRun

namespace Tarjuman

/-! ## Bags that can be made -/

namespace BagOp

/-- Make a bag and put diagnostics in. -/
def fill (limit : Int) (ds : List Diagnostic) : List BagOp := new limit :: ds.map (add 0)

theorem foldl_apply_add (b : Bag) (ds : List Diagnostic) :
    (ds.map (add 0)).foldl apply [b] = [b.addAll ds] := by
  induction ds generalizing b with
  | nil => rfl
  | cons d ds ih => exact ih (b.add d)

theorem run_fill (limit : Int) (ds : List Diagnostic) : run (fill limit ds) = [.ofList limit ds] :=
  foldl_apply_add (.new limit) ds

theorem ofList_mem_run (limit : Int) (ds : List Diagnostic) :
    Bag.ofList limit ds ∈ run (fill limit ds) := by
  rw [run_fill]
  exact List.mem_singleton_self _

end BagOp

/-! ## Putting the report in -/

namespace Job

variable {j : Job} {b : Bag}

/-- The report is put in by a merge or as any diagnostic: the list is what a merge leaves. -/
theorem toList_addAlways_eq_take (h : b.Within) (d : Diagnostic) :
    (addAlways b d).toList = (b.toList ++ [d]).take Bag.ceiling := by
  rw [addAlways]
  split
  · exact h.toList_merge _
  · rename_i hroom
    have hlt : b.size < b.limit := Nat.lt_of_not_le fun hle => hroom (decide_eq_true hle)
    have hle := h.limit_le
    have hlength : (b.toList ++ [d]).length = b.size + 1 := by
      rw [List.length_append, List.length_singleton, ← Bag.size_eq_length]
    rw [Bag.toList_add, List.take_of_length_le, List.take_of_length_le]
    · omega
    · rw [List.length_singleton]
      omega

theorem limit_addAlways_of_ceiling (h : b.Within) (hsize : b.size = Bag.ceiling)
    (d : Diagnostic) : (addAlways b d).limit = b.limit := by
  have hle := h.limit_le
  have hbound := h.size_le
  rw [addAlways]
  split
  · rw [Bag.limit_merge]
    omega
  · exact Bag.limit_add b d

/-- **There is room for the report exactly below the ceiling.** -/
theorem addAlways_iff (h : b.Within) (d : Diagnostic) :
    (addAlways b d).toList = b.toList ++ [d] ↔ b.size < Bag.ceiling := by
  rw [toList_addAlways_eq_take h, List.take_eq_self_iff, List.length_append, ← Bag.size_eq_length,
    List.length_singleton]
  exact Nat.succ_le_iff

/-- **A bag at the ceiling is left as it is.** -/
theorem addAlways_of_ceiling (h : b.Within) (hsize : b.size = Bag.ceiling) (d : Diagnostic) :
    addAlways b d = b := by
  refine Bag.ext ?_ (limit_addAlways_of_ceiling h hsize d)
  rw [toList_addAlways_eq_take h, ← hsize, Bag.size_eq_length, List.take_left]

theorem id_timingReport (j : Job) (t : Timer) :
    (j.timingReport t).code.id = Text.ofString "OBS6001" := by
  have hid : Code.timings.id = Text.ofString "OBS6001" := by decide +kernel
  exact hid

/-- However a run ends, what it gathers is put into one bag from its start to its end. -/
theorem exists_bag_run (j : Job) (s : Shared) :
    ∃ t ds, (j.run s).1.bag = j.closingBag t (.ofList j.options.maxDiagnostics ds) := by
  cases j.run_ran s with
  | fromMemo _ _ shows =>
    obtain ⟨t, hbag⟩ := shows.bag_eq
    exact ⟨t, _, hbag⟩
  | fromStore _ _ _ shows =>
    obtain ⟨t, hbag⟩ := shows.bag_eq
    exact ⟨t, _, hbag⟩
  | made _ _ shows =>
    obtain ⟨t, hbag⟩ := shows.bag_eq
    rw [Bag.addAll_append, Bag.addAll_append] at hbag
    exact ⟨t, _, hbag⟩

/-- **The report on timings is lost only where a bag holds as many diagnostics as any bag can.**
For every bag that can be made, of any limit and with any number of diagnostics, putting the report
in leaves the others in their places and adds one entry, the report with the code OBS6001, at the
end, also if the bag was full, exactly if the bag holds fewer than 65535 diagnostics; if it holds
65535, it is left as it is.  The bag of every run that is to report on its timings comes about so,
from a bag that can be made. -/
theorem timing_report_added_iff (j : Job) :
    (∀ (ops : List BagOp) (t : Timer), ∀ b ∈ BagOp.run ops,
      ((addAlways b (j.timingReport t)).toList = b.toList ++ [j.timingReport t] ↔
        b.size < 65535) ∧
      (b.size = 65535 → addAlways b (j.timingReport t) = b) ∧
      (j.timingReport t).code.id = Text.ofString "OBS6001") ∧
    ∀ s : Shared, j.options.timings = true →
      ∃ (ops : List BagOp) (t : Timer), ∃ b ∈ BagOp.run ops,
        (j.run s).1.bag = addAlways b (j.timingReport t) := by
  refine ⟨fun ops t b hb => ?_, fun s htimings => ?_⟩
  · have h := BagOp.within_run ops b hb
    exact ⟨addAlways_iff h _, fun hsize => addAlways_of_ceiling h hsize _, j.id_timingReport t⟩
  · obtain ⟨t, ds, hbag⟩ := j.exists_bag_run s
    rw [closingBag, if_pos htimings] at hbag
    exact ⟨_, t, _, BagOp.ofList_mem_run _ ds, hbag⟩

/-- A file without text, whose timings are to be reported. -/
def timedJob : Job :=
  { file := ({} : FileSet).fresh "a" [] .isVirtual, options := { timings := true } }

/-- A bag for one diagnostic that is full takes the report in. -/
theorem timing_report_added_iff_full :
    (⟨#[firstFinding], 1⟩ : Bag) ∈ BagOp.run fillOne ∧ (⟨#[firstFinding], 1⟩ : Bag).isFull = true ∧
      (addAlways ⟨#[firstFinding], 1⟩ (timedJob.timingReport {})).toList =
        [firstFinding, timedJob.timingReport {}] ∧
      ∃ (ops : List BagOp) (t : Timer), ∃ b ∈ BagOp.run ops,
        (timedJob.run {}).1.bag = addAlways b (timedJob.timingReport t) := by
  have hbag : (⟨#[firstFinding], 1⟩ : Bag) ∈ BagOp.run fillOne := List.mem_singleton_self _
  obtain ⟨hadded, hrun⟩ := timing_report_added_iff timedJob
  exact ⟨hbag, rfl, (hadded fillOne {} _ hbag).1.2 (by decide), hrun {} rfl⟩

/-- As many findings as any bag can hold. -/
def ceilingFindings : List Diagnostic := List.replicate 65535 firstFinding

/-- **A bag that is full at the ceiling loses the report**: the bag is as before, and no entry of
it has the code of the report. -/
theorem report_lost_at_ceiling :
    Bag.ofList 0 ceilingFindings ∈ BagOp.run (BagOp.fill 0 ceilingFindings) ∧
      addAlways (Bag.ofList 0 ceilingFindings) (timedJob.timingReport {}) =
        Bag.ofList 0 ceilingFindings ∧
      ∀ d ∈ (Bag.ofList 0 ceilingFindings).toList, d.code ≠ .timings := by
  have hreached := BagOp.ofList_mem_run 0 ceilingFindings
  have hlist : (Bag.ofList 0 ceilingFindings).toList = ceilingFindings := by
    rw [Bag.toList_ofList]
    exact List.take_of_length_le (List.length_replicate).le
  refine ⟨hreached, addAlways_of_ceiling (BagOp.within_run _ _ hreached) ?_ _, fun d hd => ?_⟩
  · rw [Bag.size_eq_length, hlist]
    exact List.length_replicate
  · rw [hlist] at hd
    rw [List.eq_of_mem_replicate hd]
    decide

end Job
end Tarjuman
