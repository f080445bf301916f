/-
# What a build writes

A build lists the sources, makes an outcome of each, and then writes the scripts of those without
errors one after the other.  An outcome is named by the path of its source, whatever the caches hold
and in whatever order the files are worked on (`Folder.sublist_paths`), so no two outcomes have one
path.  What the build does to the disk is to write a list of scripts, each at the place of its source
(`Command.exists_written`), and it stops early if a source has no place or a write fails.

Places of scripts lie below the directory of scripts and differ (`Target.eq_of_path_eq`).  So of all
that is written nothing is meant for another place, and nothing is written over
(`scripts_never_meet`).
-/

import Mathlib.Data.List.Forall2
import Tarjuman.Command.Run
import Tarjuman.Proofs.FolderEvents
import Tarjuman.Proofs.OutputPaths

namespace Tarjuman

/-! ## Outcomes are named by their sources -/

namespace Job

/-- A job that is done is named by its file. -/
def Stage.Names (j : Job) (st : Stage) : Prop := ∀ o, st = .finished o → o.path = j.file.path

variable {j : Job}

theorem names_close (n : Notes) (fragments : List Text) (cached : Bool) (s : Shared) :
    (j.close n fragments cached s).1.Names j := by
  obtain ⟨o, s', hclose, hshows, -⟩ := shows_close (j := j) n fragments cached s
  rw [hclose]
  rintro _ ⟨⟩
  exact hshows.path_eq

/-- **A step that ends a job names its file.** -/
theorem names_step {st : Stage} (h : st.Names j) (s : Shared) : (j.step st s).1.Names j := by
  cases st with
  | waiting =>
    simp only [step]
    split <;> rintro _ ⟨⟩
  | atMemo n =>
    simp only [step]
    split
    · rintro _ ⟨⟩
    · split
      · exact names_close _ _ _ _
      · rintro _ ⟨⟩
  | atStore n =>
    simp only [step]
    split
    · rintro _ ⟨⟩
    · split <;> rintro _ ⟨⟩
  | found n p => exact names_close _ _ _ _
  | atWork n => rintro _ ⟨⟩
  | keeping n p => rintro _ ⟨⟩
  | storing n p =>
    simp only [step]
    split
    · exact names_close _ _ _ _
    · split <;> exact names_close _ _ _ _
  | finished o => exact h

end Job

namespace Folder

/-- What is done with a file is named by it. -/
def Work.Names (j : Job) : Work → Prop
  | .queued | .given => True
  | .running stage => stage.Names j
  | .done o => o.path = j.file.path

/-- All outcomes are named by their files. -/
def Named (f : Folder) (st : State) : Prop :=
  ∀ (i : Nat) (w : Work) (file : SourceFile), st.works[i]? = some w →
    f.set.files[i]? = some file → w.Names (f.job file)

theorem named_initial (f : Folder) (s : Shared) : f.Named (f.initial s) := by
  intro i w file hw _
  rw [List.eq_of_mem_replicate (List.mem_of_getElem? hw)]
  trivial

namespace Named

variable {f : Folder} {st : State} {i : Nat}

theorem set (h : f.Named st) {w : Work}
    (hw : ∀ file, f.set.files[i]? = some file → w.Names (f.job file)) (events : List FileEvent)
    (s : Shared) : f.Named ⟨st.works.set i w, events, s⟩ := by
  intro k v file hv hfile
  rw [List.getElem?_set] at hv
  split at hv
  · rename_i heq
    subst heq
    split at hv
    · obtain rfl := Option.some.inj hv
      exact hw file hfile
    · cases hv
  · exact h k v file hv hfile

/-- A step with any file keeps the names. -/
theorem advance (h : f.Named st) (i : Nat) : f.Named (f.advance st i) := by
  generalize hst' : f.advance st i = st'
  have hadvances := f.advances st i
  rw [hst'] at hadvances
  cases hadvances with
  | idle rests => exact h
  | given => exact h.set (w := .given) (fun _ _ => trivial) _ _
  | started work has =>
    unfold begin
    split
    · refine h.set (fun file hfile => ?_) _ _
      obtain rfl := Option.some.inj (has.symm.trans hfile)
      rintro _ ⟨⟩
      rfl
    · refine h.set (fun file hfile => ?_) _ _
      rintro _ ⟨⟩
  | stepped work has more =>
    refine h.set (fun file hfile => ?_) _ _
    obtain rfl := Option.some.inj (has.symm.trans hfile)
    exact Job.names_step (h i _ _ work has) st.shared
  | ended work =>
    rename_i o
    exact h.set (w := .done o) (fun file hfile => h i _ file work hfile o rfl) _ _

/-- So does every schedule. -/
theorem follow (h : f.Named st) (schedule : List Nat) : f.Named (f.follow st schedule) := by
  induction schedule generalizing st with
  | nil => exact h
  | cons i r ih => exact ih (h.advance i)

end Named

/-- Outcomes that are named by the paths beside them are named by some of the paths, in order. -/
theorem sublist_of_names {works : List Work} {paths : List Text}
    (h : List.Forall₂ (fun w path => ∀ o, w.outcome? = some o → o.path = path) works paths) :
    (((works.map (·.outcome?)).filterMap id).map (·.path)).Sublist paths := by
  induction h with
  | nil => exact .slnil
  | @cons w path works paths hw _ ih =>
    rw [List.map_cons]
    cases ho : w.outcome? with
    | none =>
      rw [List.filterMap_cons_none rfl]
      exact .cons path ih
    | some o =>
      rw [List.filterMap_cons_some (show id (some o) = some o from rfl), List.map_cons, hw o ho]
      exact .cons_cons path ih

/-- **The outcomes of a directory run are named by the sources**, some of them and in order. -/
theorem sublist_paths {schedule : Nat → List Nat} {dir : Text} {paths : List Text}
    {o : BuildOptions} {store : Option Store} {workers parent : Nat} {s s' : Shared} {r : Result}
    (hsources : Target.sources s.disk dir = .ok paths)
    (hrun : runWith schedule dir o store workers parent false s = (.ok r, s')) :
    ((r.outcomes.filterMap id).map (·.path)).Sublist (paths.map Path.clean) := by
  obtain ⟨loaded, hloaded⟩ := exists_loadAll_of_loadable (loadable_of_runWith hsources hrun) dir
  obtain ⟨s₁, span, -, -, hfollow⟩ := runWith_eq_follow o store workers parent hsources hloaded
  obtain ⟨st, r', s'', hst, hrun', houtcomes, -⟩ := hfollow schedule
  obtain ⟨hr, -⟩ := Prod.mk.inj (hrun.symm.trans hrun')
  rw [Except.ok.inj hr, houtcomes]
  have hnamed := (named_initial (opened loaded paths o store workers span) s₁).follow
    (schedule paths.length)
  have hlength := length_works_follow (opened loaded paths o store workers span)
    ((opened loaded paths o store workers span).initial s₁) (schedule paths.length)
  rw [← hst] at hnamed hlength
  have hsize : st.works.length = (paths.map Path.clean).length := by
    rw [hlength, List.length_map]
    exact List.length_replicate
  refine sublist_of_names (List.forall₂_iff_get.2 ⟨hsize, fun i hi hi' outcome hdone => ?_⟩)
  have hpath : i < paths.length := by rwa [List.length_map] at hi'
  obtain ⟨file, hfile, hloads⟩ := loads_loadAll hloaded (List.getElem?_eq_getElem hpath)
  have hfilePath : file.path = Path.clean paths[i] := by
    generalize loaded.faults.getD i none = fault at hloads
    cases hloads with
    | loaded _ => rfl
    | failed _ => rfl
  rw [show ({ base := dir } : FileSet).size + i = i from Nat.zero_add i] at hfile
  have hwork := hnamed i _ file (List.getElem?_eq_getElem hi) hfile
  rw [List.get_eq_getElem] at hdone ⊢
  rw [List.getElem_map, ← hfilePath]
  generalize st.works[i] = w at hdone hwork
  cases w with
  | queued => cases hdone
  | given => cases hdone
  | running stage => cases hdone
  | done o' =>
    obtain rfl := Option.some.inj hdone
    exact hwork

end Folder

/-! ## Scripts are written one after the other -/

/-- The disk after scripts were written, each at its path. -/
def Target.writeAll (d : Disk) (scripts : List (Text × Text)) : Disk :=
  scripts.foldl (fun d x => (write d x.1 x.2).1) d

/-- A run in two parts ends with the first, or goes on from where the first has ended. -/
theorem Run.run_bind_cases {α β : Type} (x : Run α) (f : α → Run β) (s : Session) :
    ((x >>= f).run.run s).2 = (x.run.run s).2 ∨
      ∃ a, (x >>= f).run.run s = (f a).run.run (x.run.run s).2 := by
  rw [ExceptT.run_bind, StateT.run_bind]
  generalize x.run.run s = y
  obtain ⟨r, s'⟩ := y
  cases r with
  | error e => exact .inl rfl
  | ok a => exact .inr ⟨a, rfl⟩

theorem Run.disk_onDisk (f : Disk → Disk × Option Text) (s : Session) :
    ((Run.onDisk f).run.run s).2.disk = (f s.disk).1 := by
  have hget (k : Session → Run Unit) : (get >>= k : Run Unit).run.run s = (k s).run.run s := rfl
  rw [Run.onDisk, hget]
  rcases f s.disk with ⟨disk, _ | message⟩ <;> rfl

namespace Command

/-- Scripts of some of the outcomes, each with its place, in order. -/
inductive Written (m : Manifest) : List Outcome → List (Text × Text) → Prop where
  | nil : Written m [] []
  | skip {o : Outcome} {os : List Outcome} {scripts : List (Text × Text)}
      (rest : Written m os scripts) : Written m (o :: os) scripts
  | script {o : Outcome} {os : List Outcome} {p : Text} {scripts : List (Text × Text)}
      (place : Target.path o.path m.srcDir m.outDir = .ok p) (rest : Written m os scripts) :
      Written m (o :: os) ((p, o.output) :: scripts)

variable {m : Manifest}

namespace Written

theorem none (m : Manifest) (os : List Outcome) : Written m os [] := by
  induction os with
  | nil => exact .nil
  | cons o os ih => exact .skip ih

/-- Each script is that of an outcome. -/
theorem exists_outcome {os : List Outcome} {scripts : List (Text × Text)}
    (h : Written m os scripts) : ∀ x ∈ scripts, ∃ o ∈ os,
      Target.path o.path m.srcDir m.outDir = .ok x.1 ∧ x.2 = o.output := by
  induction h with
  | nil => exact List.forall_mem_nil _
  | skip rest ih =>
    intro x hx
    obtain ⟨o, ho, hplace⟩ := ih x hx
    exact ⟨o, List.mem_cons_of_mem _ ho, hplace⟩
  | script place rest ih =>
    refine List.forall_mem_cons.2 ⟨⟨_, List.mem_cons_self, place, rfl⟩, fun x hx => ?_⟩
    obtain ⟨o, ho, hplace⟩ := ih x hx
    exact ⟨o, List.mem_cons_of_mem _ ho, hplace⟩

/-- **Scripts of different sources have different places.** -/
theorem nodup {os : List Outcome} {scripts : List (Text × Text)} (h : Written m os scripts)
    (hdir : Path.Rooted m.srcDir) (hout : Path.Rooted m.outDir)
    (hsources : ∀ o ∈ os, Target.IsSource o.path) (hnodup : (os.map (·.path)).Nodup) :
    (scripts.map (·.1)).Nodup := by
  induction h with
  | nil => exact List.nodup_nil
  | skip rest ih =>
    exact ih (List.forall_mem_cons.1 hsources).2 (List.nodup_cons.1 hnodup).2
  | @script o os p scripts place rest ih =>
    obtain ⟨ho, hos⟩ := List.forall_mem_cons.1 hsources
    obtain ⟨hnew, hnodup⟩ := List.nodup_cons.1 hnodup
    refine List.nodup_cons.2 ⟨fun hmem => ?_, ih hos hnodup⟩
    obtain ⟨x, hx, rfl⟩ := List.mem_map.1 hmem
    obtain ⟨o', ho', hplace, -⟩ := rest.exists_outcome x hx
    have hsame := Target.eq_of_path_eq hdir hout ho (hos o' ho') place hplace
    exact hnew (List.mem_map.2 ⟨o', ho', hsame.symm⟩)

end Written

/-- **The disk after a build is the disk before with scripts written**, one after the other; a write
that fails is the last one. -/
theorem exists_written (m : Manifest) (quiet : Bool) (os : List Outcome) (s : Session) :
    ∃ scripts, Written m os scripts ∧
      ((writeScripts m quiet os).run.run s).2.disk = Target.writeAll s.disk scripts := by
  induction os generalizing s with
  | nil => exact ⟨[], .nil, rfl⟩
  | cons o os ih =>
    -- counting the files changes nothing on the disk
    have hcount (count : Nat × Nat → Nat × Nat) (s : Session) :
        ((writeScripts m quiet os >>= fun n => pure (count n)).run.run s).2 =
          ((writeScripts m quiet os).run.run s).2 := by
      rcases Run.run_bind_cases (writeScripts m quiet os) (fun n => pure (count n)) s with
        hend | ⟨n, hgo⟩
      · exact hend
      · rw [hgo]
        rfl
    rw [writeScripts]
    split
    · obtain ⟨scripts, hwritten, hdisk⟩ := ih s
      exact ⟨scripts, .skip hwritten, by rw [← hdisk]; exact congrArg Session.disk (hcount _ s)⟩
    · split
      · exact ⟨[], .none m _, rfl⟩
      · rename_i p hplace
        rcases Run.run_bind_cases (Run.onDisk fun d => Target.write d p o.output) _ s with
          hend | ⟨_, hgo⟩
        · refine ⟨[(p, o.output)], .script hplace (.none m os), ?_⟩
          exact (congrArg Session.disk hend).trans (Run.disk_onDisk _ s)
        · have hdisk := Run.disk_onDisk (fun d => Target.write d p o.output) s
          rw [hgo]
          generalize ((Run.onDisk fun d => Target.write d p o.output).run.run s).2 = s₁ at hdisk ⊢
          have hrest (s₂ : Session) (hs₂ : s₂.disk = s₁.disk) : ∃ scripts,
              Written m (o :: os) scripts ∧
                ((writeScripts m quiet os >>= fun n => pure (n.1 + 1, n.2)).run.run s₂).2.disk =
                  Target.writeAll s.disk scripts := by
            obtain ⟨scripts, hwritten, hscripts⟩ := ih s₂
            refine ⟨(p, o.output) :: scripts, .script hplace hwritten, ?_⟩
            rw [hcount, hscripts, hs₂, hdisk]
            rfl
          -- nor does it change when a script is announced
          split
          · exact hrest { s₁ with err := _ } rfl
          · exact hrest s₁ rfl

end Command

/-! ## No script is written over -/

open Tarjuman.Path (Rooted Below)
open Target (IsSource)

theorem Folder.exists_sources {schedule : Nat → List Nat} {dir : Text} {o : BuildOptions}
    {store : Option Store} {workers parent : Nat} {s s' : Shared} {r : Folder.Result}
    (hrun : runWith schedule dir o store workers parent false s = (.ok r, s')) :
    ∃ paths, Target.sources s.disk dir = .ok paths := by
  cases hsources : Target.sources s.disk dir with
  | ok paths => exact ⟨paths, rfl⟩
  | error fault =>
    rw [runWith, hsources] at hrun
    cases hrun

/-- The outcomes of a directory run have different sources. -/
theorem Folder.sources_of_outcomes {schedule : Nat → List Nat} {dir : Text} {o : BuildOptions}
    {store : Option Store} {workers parent : Nat} {s s' : Shared} {r : Folder.Result}
    (hdir : Rooted dir) (hdisk : s.disk.Regular)
    (hrun : runWith schedule dir o store workers parent false s = (.ok r, s')) :
    (∀ outcome ∈ r.outcomes.filterMap id, IsSource outcome.path) ∧
      ((r.outcomes.filterMap id).map (·.path)).Nodup := by
  obtain ⟨paths, hsources⟩ := exists_sources hrun
  have hsublist := sublist_paths hsources hrun
  have hclean : paths.map Path.clean = paths.map id := List.map_congr_left fun path hpath =>
    (Target.clean_of_mem_sources hdir.clean_eq hsources hpath).1
  rw [hclean, List.map_id] at hsublist
  refine ⟨fun outcome houtcome => ?_, (Target.nodup_sources hdisk hsources).sublist hsublist⟩
  have hpath := hsublist.subset (List.mem_map.2 ⟨outcome, houtcome, rfl⟩)
  obtain ⟨hclean, hends⟩ := Target.clean_of_mem_sources hdir.clean_eq hsources hpath
  exact ⟨hclean, hends⟩

/-- **Scripts never meet and never leave their directory.**  Different sources have different
scripts, and each script lies below the directory of scripts and ends like one.  So whatever a build
finds in its caches and in whatever order it works, it writes a list of scripts with different
places, all below that directory, each with what was made of the source of that place. -/
theorem scripts_never_meet {dir out : Text} (hdir : Rooted dir) (hout : Rooted out) :
    (∀ s t p q, IsSource s → IsSource t → s ≠ t → Target.path s dir out = .ok p →
      Target.path t dir out = .ok q → p ≠ q) ∧
    (∀ s p, IsSource s → Target.path s dir out = .ok p →
      (∃ names, Below out p names) ∧ Text.endsWith p Target.scriptExtension = true) ∧
    ∀ (m : Manifest) (schedule : Nat → List Nat) (o : BuildOptions) (store : Option Store)
      (workers parent : Nat) (s s' : Shared) (r : Folder.Result) (quiet : Bool) (session : Session),
      m.srcDir = dir → m.outDir = out → s.disk.Regular →
      Folder.runWith schedule dir o store workers parent false s = (.ok r, s') →
      ∃ scripts, ((Command.writeScripts m quiet (r.outcomes.filterMap id)).run.run session).2.disk =
          Target.writeAll session.disk scripts ∧
        (scripts.map (·.1)).Nodup ∧
        ∀ x ∈ scripts, (∃ names, Below out x.1 names) ∧
          ∃ outcome ∈ r.outcomes.filterMap id,
            Target.path outcome.path dir out = .ok x.1 ∧ x.2 = outcome.output := by
  refine ⟨fun s t p q hs ht hne hp hq heq => ?_,
    fun s p hs hp => Target.below_of_path hdir hout hs hp, ?_⟩
  · exact hne (Target.eq_of_path_eq hdir hout hs ht hp (heq ▸ hq))
  · intro m schedule o store workers parent s s' r quiet session hsrc hbuild hdisk hrun
    subst hsrc hbuild
    obtain ⟨hsources, hnodup⟩ := Folder.sources_of_outcomes hdir hdisk hrun
    obtain ⟨scripts, hwritten, hscripts⟩ :=
      Command.exists_written m quiet (r.outcomes.filterMap id) session
    refine ⟨scripts, hscripts, hwritten.nodup hdir hout hsources hnodup, fun x hx => ?_⟩
    obtain ⟨outcome, houtcome, hplace, htext⟩ := hwritten.exists_outcome x hx
    exact ⟨(Target.below_of_path hdir hout (hsources outcome houtcome) hplace).1, outcome, houtcome,
      hplace, htext⟩

/-- Two names that differ only in what looks like an ending, and a build of three sources, one of
which is a link to nothing. -/
theorem scripts_never_meet_suffixes :
    Target.path "/src/a.js.lugha" "/src" "/build" = .ok "/build/a.js.js" ∧
      Target.path "/src/a.lugha.lugha" "/src" "/build" = .ok "/build/a.lugha.js" ∧
      Text.ofString "/build/a.js.js" ≠ "/build/a.lugha.js" ∧
      (∃ names, Below "/build" "/build/a.js.js" names) ∧
      Folder.sharedDisk.Regular ∧
      ∃ r s', Folder.run "/src" {} none 2 0 false { disk := Folder.sharedDisk } = (.ok r, s') ∧
        ∃ scripts, ((Command.writeScripts ⟨"p", "src", "build", "", false, true, "/"⟩ true
            (r.outcomes.filterMap id)).run.run { disk := s'.disk }).2.disk =
            Target.writeAll s'.disk scripts ∧
          (scripts.map (·.1)).Nodup := by
  have hdir : Rooted "/src" := ⟨rfl, by decide⟩
  have hout : Rooted "/build" := ⟨rfl, by decide⟩
  obtain ⟨happart, hbelow, hbuild⟩ := scripts_never_meet hdir hout
  have hs : IsSource "/src/a.js.lugha" := ⟨by decide, by decide⟩
  have ht : IsSource "/src/a.lugha.lugha" := ⟨by decide, by decide⟩
  have hp : Target.path "/src/a.js.lugha" "/src" "/build" = .ok "/build/a.js.js" := by
    decide
  have hq : Target.path "/src/a.lugha.lugha" "/src" "/build" = .ok "/build/a.lugha.js" := by
    decide
  have hdisk : Folder.sharedDisk.Regular := by decide
  have hsources : Target.sources Folder.sharedDisk "/src" = .ok Folder.sharedPaths :=
    Target.sources_of_below (p := ["src"]) (by decide) (by decide) (by decide)
  obtain ⟨r, s', hrun, -⟩ := Folder.complete_run (s := { disk := Folder.sharedDisk }) {} none 2 0
    hsources Folder.loadable_sharedDisk
  obtain ⟨scripts, hscripts, hnodup, -⟩ := hbuild ⟨"p", "src", "build", "", false, true, "/"⟩ _ {} none
    2 0 _ s' r true { disk := s'.disk } (by decide) (by decide) hdisk hrun
  exact ⟨hp, hq, happart _ _ _ _ hs ht (by decide) hp hq, (hbelow _ _ hs hp).1, hdisk, r, s', hrun,
    scripts, hscripts, hnodup⟩

end Tarjuman
