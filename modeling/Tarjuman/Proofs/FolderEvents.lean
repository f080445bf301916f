/-
# What is told of a directory run

The workers of a directory run tell of each file twice: when they start with it, and when it
is done.  What was told of a file at any moment follows from what is done with it
(`Folder.tale`), and each step keeps that (`Folder.Told.advance`), so every schedule does
(`Folder.Told.follow`).  The events of all files come mixed as the schedule has it; only
those of one file are in order (`FileEvent.Orderly`).  Every fair schedule gets all files
done (`Folder.complete_of_fair`), and then all was told (`Folder.Told.whole_of_complete`).

The event that a file is done counts its errors, and the file is one with errors if there
are any (`Outcome.errors_pos_iff`): whatever the caches hold, nothing is put into a bag that
is worse than an error (`Job.known_step`).
-/

import Tarjuman.Proofs.FolderSchedules

namespace Tarjuman

/-- Each event names one of the files.  Of each file nothing is told but that it is started
and, after that, that it is done, both at most once. -/
structure FileEvent.Orderly (paths : List Text) (events : List FileEvent) : Prop where
  named : ∀ e ∈ events, paths[e.index]? = some e.path
  once : ∀ i, (events.filter (·.index = i)).map (·.done) <+: [false, true]

/-- The beginning of an orderly list of events is orderly. -/
theorem FileEvent.Orderly.of_isPrefix {paths : List Text} {events es : List FileEvent}
    (h : Orderly paths events) (hes : es <+: events) : Orderly paths es :=
  ⟨fun e he => h.named e (hes.subset he), fun i => ((hes.filter _).map _).trans (h.once i)⟩

/-- All was told: of each file that it started and then that it is done, with errors if it is
one of the `failing`. -/
def FileEvent.Whole (failing : List Bool) (events : List FileEvent) : Prop :=
  ∀ i b, failing[i]? = some b → ∃ s d, events.filter (·.index = i) = [s, d] ∧ s.done = false ∧
    d.done = true ∧ (0 < d.errors ↔ b = true)

section Severities

/-- All that the bag holds has one of the severities in use. -/
def Bag.Known (b : Bag) : Prop := ∀ d ∈ b.toList, d.severity.isKnown = true

namespace Bag

theorem known_new (limit : Int) : (Bag.new limit).Known := List.forall_mem_nil _

theorem Known.addAll {b : Bag} (h : b.Known) {ds : List Diagnostic}
    (hds : ∀ d ∈ ds, d.severity.isKnown = true) : (b.addAll ds).Known := by
  unfold Known
  rw [toList_addAll]
  exact List.forall_mem_append.2 ⟨h, fun d hd => hds d (List.mem_of_mem_take hd)⟩

theorem Known.add {b : Bag} (h : b.Known) {d : Diagnostic} (hd : d.severity.isKnown = true) :
    (b.add d).Known :=
  h.addAll (List.forall_mem_singleton.2 hd)

end Bag

/-- **The file has errors just if some are counted.** -/
theorem Outcome.errors_pos_iff {o : Outcome} (h : o.bag.Known) :
    0 < o.errors ↔ o.hasErrors = true := by
  have hsame : ∀ d ∈ o.bag.toList, d.severity = .error ↔ d.isError = true := by
    intro d hd
    have hknown := of_decide_eq_true (h d hd)
    rw [UInt8.lt_iff_toNat_lt] at hknown
    rw [Diagnostic.isError, Severity.isError, decide_eq_true_iff, UInt8.le_iff_toNat_le]
    constructor
    · intro heq
      rw [heq]
    · intro hle
      have hlevel : d.severity.level = Severity.error.level := by
        refine UInt8.toNat_inj.1 (Nat.le_antisymm ?_ hle)
        exact Nat.le_of_lt_succ hknown
      exact congrArg Severity.mk hlevel
  unfold errors hasErrors
  rw [Bag.hasErrors_eq_any, List.countP_pos_iff, List.any_eq_true]
  constructor
  · rintro ⟨d, hd, herror⟩
    exact ⟨d, hd, (hsame d hd).1 (of_decide_eq_true herror)⟩
  · rintro ⟨d, hd, herror⟩
    exact ⟨d, hd, decide_eq_true ((hsame d hd).2 herror)⟩

/-- What was kept has a severity in use when it comes back, whatever was kept. -/
theorem Payload.known_diagnostics (p : Payload) (file : FileId) :
    ∀ d ∈ p.diagnostics file, d.severity.isKnown = true := by
  intro d hd
  obtain ⟨r, -, rfl⟩ := List.mem_map.1 hd
  unfold StoredReport.toDiagnostic
  dsimp only
  split
  · assumption
  · decide

namespace Job

/-- The bag of a job under way. -/
def Stage.bag? : Stage → Option Bag
  | .waiting => none
  | .atMemo n | .atStore n | .found n _ | .atWork n | .keeping n _ | .storing n _ => some n.bag
  | .finished o => some o.bag

/-- The job has reported nothing but what has a severity in use. -/
def Stage.Known (st : Stage) : Prop := ∀ b ∈ st.bag?, b.Known

variable (j : Job) {n : Notes}

theorem known_cacheWarning (message : Text) : (j.cacheWarning message).severity.isKnown = true := by
  show Severity.warning.isKnown = true
  decide

theorem known_close (h : n.bag.Known) (fragments : List Text) (cached : Bool) (s : Shared) :
    (j.close n fragments cached s).1.Known := by
  rintro _ ⟨⟩
  dsimp only
  split
  · obtain ⟨more, hlist, hmore⟩ := toList_addAlways n.bag (j.timingReport n.timer)
    unfold Bag.Known
    rw [hlist]
    refine List.forall_mem_append.2 ⟨h, fun d hd => ?_⟩
    rw [hmore d hd]
    rfl
  · exact h

theorem known_closeWith (h : n.bag.Known) (p : Payload) (s : Shared) :
    (j.closeWith n p s).1.Known :=
  j.known_close (Bag.Known.addAll h (p.known_diagnostics _)) _ _ _

/-- **No step reports anything worse than an error.** -/
theorem known_step {st : Stage} (h : st.Known) (s : Shared) : (j.step st s).1.Known := by
  cases st with
  | waiting =>
    simp only [step]
    split
    · rintro _ ⟨⟩
      exact Bag.known_new _
    · rintro _ ⟨⟩
      exact Bag.known_new _
  | atMemo n =>
    have hn : n.bag.Known := h _ rfl
    simp only [step]
    split
    · exact h
    · split
      · exact j.known_closeWith hn _ _
      · exact h
  | atStore n =>
    have hn : n.bag.Known := h _ rfl
    simp only [step]
    split
    · exact h
    · split
      · exact h
      · exact h
      · rintro _ ⟨⟩
        exact hn.add (j.known_cacheWarning _)
  | found n p => exact j.known_closeWith (h _ rfl) _ _
  | atWork n =>
    rintro _ ⟨⟩
    have hn : n.bag.Known := h _ rfl
    have hreports : ∀ d ∈ (j.transpiled (tokenize j.file.id j.file.content)).2,
        d.severity.isKnown = true := by
      rw [transpiled_eq]
      exact fun d hd => (j.findings_within d (List.mem_of_mem_take hd)).known
    exact hn.addAll hreports
  | keeping n p => exact h
  | storing n p =>
    have hn : n.bag.Known := h _ rfl
    simp only [step]
    split
    · exact j.known_close hn _ _ _
    · split
      · exact j.known_close hn _ _ _
      · exact j.known_close (hn.add (j.known_cacheWarning _)) _ _ _
  | finished o => exact h

end Job
end Severities

namespace Folder

/-- The bag of a file that is worked on or done. -/
def Work.bag? : Work → Option Bag
  | .queued | .given => none
  | .running stage => stage.bag?
  | .done o => some o.bag

/-- What was told of a file, by what is done with it. -/
def tale (f : Folder) (i : Nat) : Work → List FileEvent
  | .queued | .given => []
  | .running _ => [f.started i]
  | .done o => [f.started i, f.ended i o]

/-- What was told is what is done. -/
structure Told (f : Folder) (st : State) : Prop where
  length : st.works.length = f.size
  named : ∀ e ∈ st.events, f.paths[e.index]? = some e.path
  each : ∀ i w, st.works[i]? = some w → st.events.filter (·.index = i) = f.tale i w
  known : ∀ (i : Nat) (w : Work), st.works[i]? = some w → ∀ b ∈ w.bag?, b.Known

theorem told_initial (f : Folder) (s : Shared) : f.Told (f.initial s) := by
  have hqueued (i : Nat) (w : Work) (hw : (f.initial s).works[i]? = some w) : w = .queued :=
    List.eq_of_mem_replicate (List.mem_of_getElem? hw)
  refine ⟨List.length_replicate, List.forall_mem_nil _, fun i w hw => ?_, fun i w hw b hb => ?_⟩
  · obtain rfl := hqueued i w hw
    rfl
  · obtain rfl := hqueued i w hw
    cases hb

namespace Told

variable {f : Folder} {st : State} {i : Nat}

/-- The path in the events of a file. -/
theorem path_eq (h : f.Told st) {w : Work} (hw : st.works[i]? = some w) :
    f.paths[i]? = some (f.paths.getD i []) := by
  obtain ⟨hi, -⟩ := List.getElem?_eq_some_iff.1 hw
  rw [h.length] at hi
  rw [List.getD_eq_getElem?_getD, List.getElem?_eq_getElem hi]
  rfl

/-- The work on one file goes on, and more is told of it. -/
theorem set (h : f.Told st) {w w' : Work} (hw : st.works[i]? = some w) {more : List FileEvent}
    (hmore : ∀ e ∈ more, e.index = i ∧ f.paths[i]? = some e.path)
    (htale : f.tale i w' = f.tale i w ++ more) (hknown : ∀ b ∈ w'.bag?, b.Known) (s : Shared) :
    f.Told ⟨st.works.set i w', st.events ++ more, s⟩ := by
  have hat (k : Nat) (v : Work) (hv : (st.works.set i w')[k]? = some v) :
      i = k ∧ v = w' ∨ i ≠ k ∧ st.works[k]? = some v := by
    by_cases hk : i = k
    · subst hk
      rw [List.getElem?_set_self'] at hv
      obtain ⟨-, -, rfl⟩ := Option.map_eq_some_iff.1 hv
      exact .inl ⟨rfl, rfl⟩
    · rw [List.getElem?_set_ne hk] at hv
      exact .inr ⟨hk, hv⟩
  refine ⟨?_, List.forall_mem_append.2 ⟨h.named, fun e he => ?_⟩, fun k v hv => ?_,
    fun k v hv => ?_⟩
  · exact List.length_set.trans h.length
  · obtain ⟨rfl, hpath⟩ := hmore e he
    exact hpath
  · rw [List.filter_append]
    rcases hat k v hv with ⟨rfl, rfl⟩ | ⟨hk, hv⟩
    · rw [h.each i w hw, htale, List.filter_eq_self.2]
      exact fun e he => decide_eq_true (hmore e he).1
    · rw [h.each k v hv, List.filter_eq_nil_iff.2, List.append_nil]
      exact fun e he heq => hk ((hmore e he).1.symm.trans (of_decide_eq_true heq))
  · rcases hat k v hv with ⟨-, rfl⟩ | ⟨-, hv⟩
    · exact hknown
    · exact h.known k v hv

/-- **A step with any file tells what it does.** -/
theorem advance (h : f.Told st) (i : Nat) : f.Told (f.advance st i) := by
  generalize hst' : f.advance st i = st'
  have hadvances := f.advances st i
  rw [hst'] at hadvances
  cases hadvances with
  | idle rests => exact h
  | given work =>
    -- that a worker takes a file is not told
    have htale : f.tale i .given = f.tale i .queued ++ [] := rfl
    have hset := h.set work (List.forall_mem_nil _) htale (fun b hb => by cases hb) st.shared
    rw [List.append_nil] at hset
    exact hset
  | started work has =>
    have hmore : ∀ e ∈ [f.started i], e.index = i ∧ f.paths[i]? = some e.path :=
      List.forall_mem_singleton.2 ⟨rfl, h.path_eq work⟩
    unfold begin
    split
    · refine h.set work hmore rfl ?_ _
      rintro _ ⟨⟩
      exact (Bag.known_new _).addAll (List.forall_mem_singleton.2 rfl)
    · refine h.set work hmore rfl ?_ _
      rintro _ ⟨⟩
  | stepped work has more =>
    rename_i file stage
    have hknown := (f.job file).known_step (h.known i _ work) st.shared
    -- a step with a job tells nothing
    have htale : f.tale i (.running ((f.job file).step stage st.shared).1) =
        f.tale i (.running stage) ++ [] := rfl
    have hset := h.set work (List.forall_mem_nil _) htale hknown
      ((f.job file).step stage st.shared).2
    rw [List.append_nil] at hset
    exact hset
  | ended work =>
    rename_i o
    have htale : f.tale i (.done o) = f.tale i (.running (.finished o)) ++ [f.ended i o] := rfl
    refine h.set work ?_ htale ?_ _
    · exact List.forall_mem_singleton.2 ⟨rfl, h.path_eq work⟩
    · exact h.known i (.running (.finished o)) work

/-- **Every schedule tells what it does.** -/
theorem follow (h : f.Told st) (schedule : List Nat) : f.Told (f.follow st schedule) := by
  induction schedule generalizing st with
  | nil => exact h
  | cons i r ih => exact ih (h.advance i)

/-- What was told is orderly. -/
theorem orderly (h : f.Told st) : FileEvent.Orderly f.paths st.events := by
  refine ⟨h.named, fun i => ?_⟩
  by_cases hi : i < st.works.length
  · rw [h.each i _ (List.getElem?_eq_getElem hi)]
    cases st.works[i] with
    | queued => exact List.nil_prefix
    | given => exact List.nil_prefix
    | running stage => exact ⟨[true], rfl⟩
    | done o => exact List.prefix_rfl
  · have hnone : st.events.filter (·.index = i) = [] := by
      refine List.filter_eq_nil_iff.2 fun e he heq => hi ?_
      obtain ⟨hlt, -⟩ := List.getElem?_eq_some_iff.1 (h.named e he)
      rw [h.length, ← of_decide_eq_true heq]
      exact hlt
    rw [hnone]
    exact List.nil_prefix

/-- **When all files are done all was told**, with the errors of each file counted. -/
theorem whole_of_complete (h : f.Told st)
    (hall : ∀ out ∈ st.works.map (·.outcome?), out.isSome = true) :
    FileEvent.Whole ((st.works.map (·.outcome?)).map (·.any (·.hasErrors))) st.events := by
  intro i b hb
  rw [List.map_map, List.getElem?_map] at hb
  obtain ⟨w, hw, rfl⟩ := Option.map_eq_some_iff.1 hb
  have hdone := hall _ (List.mem_map_of_mem (List.mem_of_getElem? hw))
  cases w with
  | queued => cases hdone
  | given => cases hdone
  | running stage => cases hdone
  | done o =>
    exact ⟨f.started i, f.ended i o, h.each i _ hw, rfl, rfl,
      Outcome.errors_pos_iff (h.known i _ hw _ rfl)⟩

end Told
/-- All files are done. -/
def Result.Complete (r : Result) : Prop := ∀ out ∈ r.outcomes, out.isSome = true

section Runs

variable {s : Shared} {dir : Text} {paths : List Text} (o : BuildOptions) (store : Option Store)
  (workers parent : Nat) (hsources : Target.sources s.disk dir = .ok paths)
  (hloadable : Loadable s.disk paths)

include hsources hloadable

/-- **A directory run tells what it does.** -/
theorem told_runWith (schedule : Nat → List Nat) :
    ∃ (f : Folder) (st : State) (r : Result) (s' : Shared), f.paths = paths ∧ f.Told st ∧
      runWith schedule dir o store workers parent false s = (.ok r, s') ∧
      r.outcomes = st.works.map (·.outcome?) ∧ r.events = st.events := by
  obtain ⟨loaded, hloaded⟩ := exists_loadAll_of_loadable hloadable dir
  obtain ⟨s₁, span, -, -, hrun⟩ := runWith_eq_follow o store workers parent hsources hloaded
  obtain ⟨st, r, s', hst, hrest⟩ := hrun schedule
  exact ⟨opened loaded paths o store workers span, st, r, s', rfl,
    hst ▸ (told_initial _ s₁).follow _, hrest⟩

/-- A schedule that settles all files makes a run complete. -/
theorem complete_of_settled :
    ∃ (f : Folder) (s₁ : Shared), f.size = paths.length ∧ f.set.files.size = f.size ∧
      0 < f.workers ∧
      ∀ schedule, (f.follow (f.initial s₁) (schedule f.size)).Settled → ∃ r s',
        runWith schedule dir o store workers parent false s = (.ok r, s') ∧ r.Complete := by
  obtain ⟨loaded, hloaded⟩ := exists_loadAll_of_loadable hloadable dir
  obtain ⟨s₁, span, -, -, hrun⟩ := runWith_eq_follow o store workers parent hsources hloaded
  refine ⟨opened loaded paths o store workers span, s₁, rfl, size_files_opened hloaded .., ?_, ?_⟩
  · exact Nat.lt_of_lt_of_le Nat.zero_lt_one (Nat.le_max_left 1 workers)
  · intro schedule hsettled
    obtain ⟨st, r, s', rfl, heq, houtcomes, -⟩ := hrun schedule
    refine ⟨r, s', heq, ?_⟩
    unfold Result.Complete
    rw [houtcomes]
    refine List.forall_mem_map.2 fun w hw => ?_
    obtain ⟨o, rfl⟩ := Work.rank_eq_zero_iff.1 (hsettled w hw)
    rfl

/-- **Every fair schedule gets all files done.** -/
theorem complete_of_fair {who : Nat → Nat} (hfair : Fair paths.length who) : ∃ n, ∀ m ≥ n, ∃ r s',
      runWith (fun _ => (List.range m).map who) dir o store workers parent false s = (.ok r, s') ∧
        r.Complete := by
  obtain ⟨f, s₁, hsize, hfiles, hworkers, hcomplete⟩ :=
    complete_of_settled o store workers parent hsources hloadable
  have hstart : (f.initial s₁).works.length = f.size := List.length_replicate
  rw [← hsize, ← hstart] at hfair
  obtain ⟨n, hn⟩ := exists_settled (hstart.trans hfiles.symm).le hworkers hfair
  exact ⟨n, fun m hm => hcomplete (fun _ => (List.range m).map who) (hn m hm)⟩

/-- The run that takes the files in order gets all of them done. -/
theorem complete_run :
    ∃ r s', run dir o store workers parent false s = (.ok r, s') ∧ r.Complete := by
  obtain ⟨f, s₁, -, hfiles, hworkers, hcomplete⟩ :=
    complete_of_settled o store workers parent hsources hloadable
  exact hcomplete inOrder (settled_inOrder f s₁ hfiles hworkers)

end Runs

end Folder
end Tarjuman
