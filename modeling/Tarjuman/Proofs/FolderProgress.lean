/-
# Directory runs end

A step with a file brings it nearer to its end or does nothing (`Folder.left_advance`), and
as long as a file is not done there is one to go on with: one that a worker has, or the
first one that is queued, for which a worker is free (`Folder.exists_advance`).  So a
schedule that comes back to every file again and again settles all files
(`Folder.exists_settled`), and so does the one that takes the files in order
(`Folder.settled_inOrder`).
-/

import Tarjuman.Build.Folder

namespace Tarjuman
namespace Folder

/-- Only a file that is done has no steps left. -/
theorem Work.rank_eq_zero_iff {w : Work} : w.rank = 0 ↔ ∃ o, w = .done o := by
  cases w <;> simp [rank]

namespace State

/-- The number of steps that are left for some files at most. -/
def leftOf : List Work → Nat
  | [] => 0
  | w :: r => w.rank + leftOf r

/-- The number of steps that are left at most. -/
def left (st : State) : Nat := leftOf st.works

/-- All files are done. -/
def Settled (st : State) : Prop := ∀ w ∈ st.works, w.rank = 0

theorem leftOf_eq_zero_iff {ws : List Work} : leftOf ws = 0 ↔ ∀ w ∈ ws, w.rank = 0 := by
  induction ws with
  | nil => simp [leftOf]
  | cons w r ih => rw [leftOf, Nat.add_eq_zero_iff, ih, List.forall_mem_cons]

theorem left_eq_zero_iff {st : State} : st.left = 0 ↔ st.Settled := leftOf_eq_zero_iff

/-- Fewer steps for one file are fewer steps in all. -/
theorem leftOf_set_lt {ws : List Work} {i : Nat} {w w' : Work} (hw : ws[i]? = some w)
    (hlt : w'.rank < w.rank) : leftOf (ws.set i w') < leftOf ws := by
  induction ws generalizing i with
  | nil => cases hw
  | cons v r ih =>
    cases i with
    | zero =>
      obtain rfl := Option.some.inj hw
      exact Nat.add_lt_add_right hlt (leftOf r)
    | succ i => exact Nat.add_lt_add_left (ih hw) v.rank

end State

variable {f : Folder} {st : State} {i : Nat}

/-- There is nothing to do with a file now: it is done, or it has to wait. -/
def Rests (f : Folder) (st : State) (i : Nat) : Prop :=
  ∀ w file, st.works[i]? = some w → f.set.files[i]? = some file →
    w.rank = 0 ∨ w = .queued ∧ f.mayStart st i = false

/-- What a step with a file can do. -/
inductive Advances (f : Folder) (st : State) (i : Nat) : State → Prop where
  | idle (rests : f.Rests st i) : Advances f st i st
  | given (work : st.works[i]? = some .queued) (may : f.mayStart st i = true) :
      Advances f st i { st with works := st.works.set i .given }
  | started {file : SourceFile} (work : st.works[i]? = some .given)
      (has : f.set.files[i]? = some file) : Advances f st i (f.begin st i file)
  | stepped {file : SourceFile} {stage : Job.Stage} (work : st.works[i]? = some (.running stage))
      (has : f.set.files[i]? = some file) (more : stage.rank ≠ 0) :
      Advances f st i
        { st with
          works := st.works.set i (.running ((f.job file).step stage st.shared).1)
          shared := ((f.job file).step stage st.shared).2 }
  | ended {o : Outcome} (work : st.works[i]? = some (.running (.finished o))) :
      Advances f st i
        { st with works := st.works.set i (.done o), events := st.events ++ [f.ended i o] }

theorem advances (f : Folder) (st : State) (i : Nat) : f.Advances st i (f.advance st i) := by
  rw [advance.eq_def]
  split
  · rename_i hwork
    split
    · rename_i hmay
      exact .given hwork hmay
    · rename_i hmay
      refine .idle fun w _ hw _ => .inr ?_
      rw [hwork] at hw
      exact ⟨(Option.some.inj hw).symm, Bool.eq_false_iff.2 hmay⟩
  · rename_i file hwork hfile
    exact .started hwork hfile
  · rename_i hwork
    exact .ended hwork
  · rename_i stage file hfinished hwork hfile
    refine .stepped hwork hfile ?_
    cases stage <;> simp [Job.Stage.rank]
    exact hfinished _ rfl
  · rename_i hqueued _ hgiven hrunning
    refine .idle fun w file hw hfile => .inl ?_
    cases w with
    | queued => exact (hqueued hw).elim
    | given => exact (hgiven file hw hfile).elim
    | running stage => exact (hrunning stage file hw hfile).elim
    | done o => rfl

/-- A file that is started has fewer steps left. -/
theorem works_begin (f : Folder) (st : State) (i : Nat) (file : SourceFile) :
    ∃ w, (f.begin st i file).works = st.works.set i w ∧ w.rank < Work.given.rank := by
  rw [begin]
  split
  · exact ⟨_, rfl, by simp [Work.rank, Job.Stage.rank]⟩
  · exact ⟨_, rfl, by simp [Work.rank, Job.Stage.rank]⟩

/-- **A step brings one file nearer to its end**, or does nothing. -/
theorem Advances.works_eq {st' : State} (h : f.Advances st i st') :
    st' = st ∧ f.Rests st i ∨
      ∃ w w', st.works[i]? = some w ∧ st'.works = st.works.set i w' ∧ w'.rank < w.rank := by
  cases h with
  | idle rests => exact .inl ⟨rfl, rests⟩
  | given work may => exact .inr ⟨_, _, work, rfl, Nat.lt_succ_self _⟩
  | started work has =>
    obtain ⟨w, hworks, hlt⟩ := f.works_begin st i _
    exact .inr ⟨_, w, work, hworks, hlt⟩
  | stepped work has more =>
    exact .inr ⟨_, _, work, rfl, Nat.succ_lt_succ (Job.rank_step_lt _ _ more)⟩
  | ended work => exact .inr ⟨_, _, work, rfl, Nat.succ_pos _⟩

theorem length_works_advance (f : Folder) (st : State) (i : Nat) :
    (f.advance st i).works.length = st.works.length := by
  rcases (f.advances st i).works_eq with ⟨heq, -⟩ | ⟨w, w', -, hworks, -⟩
  · rw [heq]
  · rw [hworks, List.length_set]

theorem left_advance (f : Folder) (st : State) (i : Nat) :
    f.advance st i = st ∨ (f.advance st i).left < st.left := by
  rcases (f.advances st i).works_eq with ⟨heq, -⟩ | ⟨w, w', hw, hworks, hlt⟩
  · exact .inl heq
  · refine .inr ?_
    rw [State.left, hworks]
    exact State.leftOf_set_lt hw hlt

/-- A file that is not done goes on, unless it is queued and has to wait. -/
theorem works_advance_of_ready {w : Work} {file : SourceFile} (hw : st.works[i]? = some w)
    (hfile : f.set.files[i]? = some file) (hmore : w.rank ≠ 0)
    (hmay : w = .queued → f.mayStart st i = true) :
    ∃ w', (f.advance st i).works = st.works.set i w' ∧ w'.rank < w.rank := by
  rcases (f.advances st i).works_eq with ⟨-, hrests⟩ | ⟨v, w', hv, hworks, hlt⟩
  · rcases hrests w file hw hfile with hdone | ⟨hqueued, hwaits⟩
    · exact absurd hdone hmore
    · exact Bool.noConfusion ((hmay hqueued).symm.trans hwaits)
  · obtain rfl : v = w := Option.some.inj (hv.symm.trans hw)
    exact ⟨w', hworks, hlt⟩

/-- With nothing under way the first queued file may start. -/
theorem mayStart_of_idle (hworkers : 0 < f.workers) (hidle : ∀ w ∈ st.works, w.isTaken = false)
    (hfirst : ∀ w ∈ st.works.take i, w.isQueued = false) : f.mayStart st i = true := by
  have hnone : st.works.countP (·.isTaken) = 0 :=
    List.countP_eq_zero.2 fun w hw => by rw [hidle w hw]; exact Bool.false_ne_true
  have hany : (st.works.take i).any (·.isQueued) = false :=
    List.any_eq_false.2 fun w hw => by rw [hfirst w hw]; exact Bool.false_ne_true
  rw [mayStart, hnone, hany]
  simp [hworkers]

/-- **Some file can go on** as long as not all are done. -/
theorem exists_advance (hfiles : st.works.length ≤ f.set.files.size) (hworkers : 0 < f.workers)
    (h : ¬ st.Settled) : ∃ i < st.works.length, (f.advance st i).left < st.left := by
  have hgoes {i : Nat} {w : Work} (hw : st.works[i]? = some w) (hmore : w.rank ≠ 0)
      (hmay : w = .queued → f.mayStart st i = true) :
      ∃ i < st.works.length, (f.advance st i).left < st.left := by
    obtain ⟨hi, -⟩ := List.getElem?_eq_some_iff.1 hw
    have hfile := Array.getElem?_eq_getElem (Nat.lt_of_lt_of_le hi hfiles)
    obtain ⟨w', hworks, hlt⟩ := works_advance_of_ready hw hfile hmore hmay
    refine ⟨i, hi, ?_⟩
    rw [State.left, hworks]
    exact State.leftOf_set_lt hw hlt
  by_cases htaken : ∃ w ∈ st.works, w.isTaken = true
  · obtain ⟨w, hw, ht⟩ := htaken
    obtain ⟨i, hi⟩ := List.mem_iff_getElem?.1 hw
    cases w with
    | queued => cases ht
    | given => exact hgoes hi (Nat.succ_ne_zero _) fun heq => by cases heq
    | running stage => exact hgoes hi (Nat.succ_ne_zero _) fun heq => by cases heq
    | done o => cases ht
  · -- what is not done is queued, and the first one that is queued can start
    have hidle : ∀ w ∈ st.works, w.isTaken = false :=
      fun w hw => Bool.eq_false_iff.2 fun ht => htaken ⟨w, hw, ht⟩
    have hqueued : ∃ w ∈ st.works, w.isQueued = true := by
      simp only [State.Settled, Classical.not_forall] at h
      obtain ⟨w, hw, hmore⟩ := h
      have ht := hidle w hw
      cases w with
      | queued => exact ⟨_, hw, rfl⟩
      | given => cases ht
      | running stage => cases ht
      | done o => exact absurd rfl hmore
    have hlt : st.works.findIdx (·.isQueued) < st.works.length := List.findIdx_lt_length.2 hqueued
    have hat : st.works[st.works.findIdx (·.isQueued)]? = some .queued := by
      rw [List.getElem?_eq_getElem hlt]
      have hfound := List.findIdx_getElem (w := hlt)
      generalize st.works[st.works.findIdx (·.isQueued)] = w at hfound ⊢
      cases w with
      | queued => rfl
      | given => cases hfound
      | running stage => cases hfound
      | done o => cases hfound
    refine hgoes hat (by simp [Work.rank]) fun _ => mayStart_of_idle hworkers hidle ?_
    intro w hw
    obtain ⟨k, hk⟩ := List.mem_iff_getElem?.1 hw
    rw [List.getElem?_take] at hk
    split at hk
    · rename_i hbefore
      obtain ⟨hlen, rfl⟩ := List.getElem?_eq_some_iff.1 hk
      exact List.not_of_lt_findIdx hbefore
    · cases hk

section Fair

/-- The state after the first steps of a schedule without end. -/
def after (f : Folder) (st : State) (who : Nat → Nat) (n : Nat) : State :=
  f.follow st ((List.range n).map who)

/-- The schedule comes back to each of the first `n` files again and again. -/
def Fair (n : Nat) (who : Nat → Nat) : Prop := ∀ i < n, ∀ t, ∃ t' ≥ t, who t' = i

/-- To take turns is fair. -/
theorem fair_turns (n : Nat) : Fair n (· % n) := by
  intro i hi t
  refine ⟨n * t + i, ?_, ?_⟩
  · have hle : t ≤ n * t := Nat.le_mul_of_pos_left t (by omega)
    omega
  · show (n * t + i) % n = i
    rw [Nat.mul_add_mod_self_left, Nat.mod_eq_of_lt hi]

theorem follow_append (f : Folder) (st : State) (a b : List Nat) :
    f.follow st (a ++ b) = f.follow (f.follow st a) b := List.foldl_append

theorem after_succ (f : Folder) (st : State) (who : Nat → Nat) (n : Nat) :
    f.after st who (n + 1) = f.advance (f.after st who n) (who n) := by
  rw [after, List.range_succ, List.map_append, follow_append]
  rfl

theorem length_works_follow (f : Folder) (st : State) (schedule : List Nat) :
    (f.follow st schedule).works.length = st.works.length := by
  induction schedule generalizing st with
  | nil => rfl
  | cons i r ih => exact (ih (f.advance st i)).trans (f.length_works_advance st i)

/-- Without files nothing happens. -/
theorem follow_of_works_nil (f : Folder) {st : State} (h : st.works = []) (schedule : List Nat) :
    f.follow st schedule = st := by
  induction schedule with
  | nil => rfl
  | cons i r ih =>
    have hsame : f.advance st i = st := by
      rcases (f.advances st i).works_eq with ⟨heq, -⟩ | ⟨w, w', hw, -, -⟩
      · exact heq
      · rw [h] at hw
        cases hw
    rw [follow, List.foldl_cons, hsame]
    exact ih

theorem left_after_add (f : Folder) (st : State) (who : Nat → Nat) (n k : Nat) :
    f.after st who (n + k) = f.after st who n ∨
      (f.after st who (n + k)).left < (f.after st who n).left := by
  induction k with
  | zero => exact .inl rfl
  | succ k ih =>
    rw [← Nat.add_assoc, after_succ]
    rcases f.left_advance (f.after st who (n + k)) (who (n + k)) with hsame | hlt
    · rw [hsame]
      exact ih
    · rcases ih with heq | hlt'
      · rw [heq] at hlt
        exact .inr (by rw [heq]; exact hlt)
      · exact .inr (Nat.lt_trans hlt hlt')

/-- From every point on, a fair schedule gets to the end: the number of steps left falls
until it is zero. -/
theorem exists_settled_from {who : Nat → Nat} (hfiles : st.works.length ≤ f.set.files.size)
    (hworkers : 0 < f.workers) (hfair : Fair st.works.length who) (n : Nat) :
    ∃ m, (f.after st who m).Settled := by
  induction hleft : (f.after st who n).left using Nat.strongRecOn generalizing n with
  | ind left ih =>
    by_cases hsettled : (f.after st who n).Settled
    · exact ⟨n, hsettled⟩
    have hlength : (f.after st who n).works.length = st.works.length :=
      length_works_follow f st _
    obtain ⟨i, hi, hlt⟩ := exists_advance (hlength ▸ hfiles) hworkers hsettled
    obtain ⟨t, ht, rfl⟩ := hfair i (hlength ▸ hi) n
    obtain ⟨k, rfl⟩ := Nat.exists_eq_add_of_le ht
    -- when the turn of that file comes, nothing has changed or there is less to do
    rcases f.left_after_add st who n k with heq | hless
    · refine ih _ ?_ (n + k + 1) rfl
      rw [after_succ, heq, ← hleft]
      exact hlt
    · exact ih _ (hleft ▸ hless) (n + k) rfl

/-- **Under a fair schedule all files get done**, and stay so. -/
theorem exists_settled {who : Nat → Nat} (hfiles : st.works.length ≤ f.set.files.size)
    (hworkers : 0 < f.workers) (hfair : Fair st.works.length who) :
    ∃ n, ∀ m ≥ n, (f.after st who m).Settled := by
  obtain ⟨n, hn⟩ := exists_settled_from hfiles hworkers hfair 0
  refine ⟨n, fun m hm => ?_⟩
  obtain ⟨k, rfl⟩ := Nat.exists_eq_add_of_le hm
  rcases f.left_after_add st who n k with heq | hlt
  · rw [heq]
    exact hn
  · rw [State.left_eq_zero_iff.2 hn] at hlt
    exact absurd hlt (Nat.not_lt_zero _)

end Fair

section InOrder

/-- All files before one are done and all behind it are queued. -/
structure Reached (k : Nat) (ws : List Work) : Prop where
  before : ∀ i w, i < k → ws[i]? = some w → w.rank = 0
  behind : ∀ i w, k < i → ws[i]? = some w → w = .queued

theorem Reached.set {k : Nat} {ws : List Work} (h : Reached k ws) (w : Work) :
    Reached k (ws.set k w) := by
  refine ⟨fun i v hi hv => ?_, fun i v hi hv => ?_⟩
  · rw [List.getElem?_set_ne (by omega)] at hv
    exact h.before i v hi hv
  · rw [List.getElem?_set_ne (by omega)] at hv
    exact h.behind i v hi hv

/-- The file that was reached may start. -/
theorem Reached.mayStart {k : Nat} (h : Reached k st.works) (hworkers : 0 < f.workers)
    (hk : st.works[k]? = some .queued) : f.mayStart st k = true := by
  refine mayStart_of_idle hworkers (fun w hw => ?_) fun w hw => ?_
  · obtain ⟨i, hi⟩ := List.mem_iff_getElem?.1 hw
    rcases Nat.lt_trichotomy i k with hlt | rfl | hlt
    · obtain ⟨o, rfl⟩ := Work.rank_eq_zero_iff.1 (h.before i w hlt hi)
      rfl
    · obtain rfl := Option.some.inj (hk.symm.trans hi)
      rfl
    · obtain rfl := h.behind i w hlt hi
      rfl
  · obtain ⟨i, hi⟩ := List.mem_iff_getElem?.1 hw
    rw [List.getElem?_take] at hi
    split at hi
    · rename_i hlt
      obtain ⟨o, rfl⟩ := Work.rank_eq_zero_iff.1 (h.before i w hlt hi)
      rfl
    · cases hi

/-- Enough steps with the file that was reached get it done. -/
theorem Reached.works_follow_replicate {k n : Nat} {w : Work} {file : SourceFile}
    (h : Reached k st.works) (hworkers : 0 < f.workers) (hfile : f.set.files[k]? = some file)
    (hk : st.works[k]? = some w) (hn : w.rank ≤ n) :
    ∃ w', (f.follow st (List.replicate n k)).works = st.works.set k w' ∧ w'.rank = 0 := by
  induction n generalizing st w with
  | zero =>
    obtain ⟨hlen, rfl⟩ := List.getElem?_eq_some_iff.1 hk
    exact ⟨_, (List.set_getElem_self hlen).symm, Nat.le_zero.1 hn⟩
  | succ n ih =>
    obtain ⟨hlen, heq⟩ := List.getElem?_eq_some_iff.1 hk
    have hstep : ∃ w', (f.advance st k).works = st.works.set k w' ∧ w'.rank ≤ n := by
      rcases (f.advances st k).works_eq with ⟨hsame, hrests⟩ | ⟨v, w', hv, hworks, hlt⟩
      · rcases hrests w file hk hfile with hdone | ⟨rfl, hwaits⟩
        · refine ⟨w, ?_, by omega⟩
          rw [hsame, ← heq, List.set_getElem_self]
        · exact Bool.noConfusion ((h.mayStart hworkers hk).symm.trans hwaits)
      · obtain rfl : v = w := Option.some.inj (hv.symm.trans hk)
        exact ⟨w', hworks, by omega⟩
    obtain ⟨w', hworks, hle⟩ := hstep
    have hk' : (f.advance st k).works[k]? = some w' := by
      rw [hworks, List.getElem?_set_self hlen]
    obtain ⟨w'', hfollow, hzero⟩ := ih (hworks ▸ h.set w') hk' hle
    refine ⟨w'', ?_, hzero⟩
    rw [hworks, List.set_set] at hfollow
    exact hfollow

/-- **One file after the other, all files get done.** -/
theorem settled_inOrder (f : Folder) (s : Shared) (hfiles : f.set.files.size = f.size)
    (hworkers : 0 < f.workers) : (f.follow (f.initial s) (inOrder f.size)).Settled := by
  have hlength (schedule : List Nat) :
      (f.follow (f.initial s) schedule).works.length = f.size :=
    (f.length_works_follow _ schedule).trans List.length_replicate
  have hreached (k : Nat) (hk : k ≤ f.size) :
      Reached k (f.follow (f.initial s) (inOrder k)).works ∧
        ∀ w, (f.follow (f.initial s) (inOrder k)).works[k]? = some w → w = .queued := by
    induction k with
    | zero =>
      have hall (i : Nat) (w : Work) (hw : (List.replicate f.size Work.queued)[i]? = some w) :
          w = .queued := List.eq_of_mem_replicate (List.mem_of_getElem? hw)
      exact ⟨⟨fun i w hi _ => absurd hi (Nat.not_lt_zero i), fun i w _ => hall i w⟩, hall 0⟩
    | succ k ih =>
      obtain ⟨hbefore, hhere⟩ := ih (Nat.le_of_succ_le hk)
      have hlen : k < (f.follow (f.initial s) (inOrder k)).works.length := by
        rw [hlength]
        exact hk
      have hqueued := hhere _ (List.getElem?_eq_getElem hlen)
      have hfile := Array.getElem?_eq_getElem (show k < f.set.files.size by omega)
      obtain ⟨w', hworks, hzero⟩ := hbefore.works_follow_replicate hworkers hfile
        (hqueued ▸ List.getElem?_eq_getElem hlen) (Nat.le_refl _)
      have hsplit : inOrder (k + 1) = inOrder k ++ List.replicate Work.queued.rank k := by
        simp [inOrder, List.range_succ]
      rw [hsplit, follow_append, hworks]
      refine ⟨⟨fun i w hi hw => ?_, fun i w hi hw => ?_⟩, fun w hw => ?_⟩
      · by_cases heq : i = k
        · rw [heq, List.getElem?_set_self hlen] at hw
          obtain rfl := Option.some.inj hw
          exact hzero
        · rw [List.getElem?_set_ne (Ne.symm heq)] at hw
          exact hbefore.before i w (by omega) hw
      · rw [List.getElem?_set_ne (by omega)] at hw
        exact hbefore.behind i w (by omega) hw
      · rw [List.getElem?_set_ne (by omega)] at hw
        exact hbefore.behind _ w (Nat.lt_succ_self k) hw
  intro w hw
  obtain ⟨i, hi⟩ := List.mem_iff_getElem?.1 hw
  obtain ⟨hlt, -⟩ := List.getElem?_eq_some_iff.1 hi
  rw [hlength] at hlt
  exact (hreached f.size (Nat.le_refl _)).1.before i w hlt hi

end InOrder
end Folder
end Tarjuman
