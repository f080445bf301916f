/-
# Directory runs do not depend on the schedule

The workers of a directory run share a memo and a store and take their steps in any order.
At every moment each file stands as it should (`Folder.Sane`): a step with any of them
keeps that (`Folder.Sane.advance`), so a whole schedule does (`Folder.Sane.follow`).  What
is put in the place of a file is then what the file gives when it is transpiled alone and
without caches, at the places of its own file (`Folder.view_of_right`).  With the files in
the order of their paths and every fair schedule coming to an end, a directory run gives
the same results under every schedule (`Folder.views_runWith_eq_alone`), unless a source is
too large when it is cleaned: then the run breaks off (`Folder.runWith_of_not_loadable`).

The caches may be empty or hold what earlier runs left in them (`CachesAfter`), with renamers
that spell alike if they are of one kind; otherwise a run may be given names of an earlier one
(`Folder.run_shows_earlier_spelling`).
-/

import Tarjuman.Proofs.FolderProgress
import Tarjuman.Proofs.SharedCaches
import Tarjuman.Proofs.SourceOrder

namespace Tarjuman

/-- What there is to see of the result of a file. -/
structure View where
  path : Text
  fragments : List Text
  output : Text
  reports : List Diagnostic
deriving DecidableEq

/-- The view with the places of its reports moved. -/
def View.shift (k : Shift) (v : View) : View :=
  { v with reports := v.reports.map (Diagnostic.shift k) }

/-- Everything but the timer and whether the result was kept; if there are reports on
timings, `timed`, they are left out too. -/
def Outcome.view (timed : Bool) (o : Outcome) : View :=
  ⟨o.path, o.fragments, o.output,
    if timed then o.bag.toList.filter (·.code ≠ .timings) else o.bag.toList⟩

namespace Job

variable (j : Job)

/-- What there is to see of a job that is done. -/
def view : View :=
  ⟨j.file.path, j.script.fragments, Script.render j.script.fragments j.options.separator,
    j.findings.take j.limit⟩

theorem view_inFile (id : FileId) : (j.inFile id).view = j.view.shift (.toFile j.file.id id) := by
  have hlimit : (j.inFile id).limit = j.limit := rfl
  have hoptions : (j.inFile id).options = j.options := rfl
  rw [view, script_inFile, findings_inFile, hlimit, hoptions, ← List.map_take]
  rfl

/-- A report that finds room in any case is the last one. -/
theorem toList_addAlways (b : Bag) (d : Diagnostic) :
    ∃ more, (addAlways b d).toList = b.toList ++ more ∧ ∀ e ∈ more, e = d := by
  have htake (n : Nat) : ∀ e ∈ [d].take n, e = d :=
    fun e he => List.mem_singleton.1 (List.mem_of_mem_take he)
  rw [addAlways]
  split
  · refine ⟨_, Bag.toList_addAll _ _, fun e he => ?_⟩
    rw [Bag.toList_ofList] at he
    exact htake _ e (List.mem_of_mem_take he)
  · exact ⟨_, Bag.toList_add b d, htake _⟩

variable {j} in
/-- **An outcome with all findings shows what the job gives**, with or without a report on
timings. -/
theorem view_of_shows {o : Outcome} (h : j.Shows j.script.fragments j.fullBag o) :
    o.view j.options.timings = j.view := by
  obtain ⟨t, hbag⟩ := h.bag_eq
  have hfull : j.fullBag.toList = j.findings.take j.limit := Bag.toList_ofList _ _
  have hreports : (if j.options.timings then o.bag.toList.filter (·.code ≠ .timings)
      else o.bag.toList) = j.findings.take j.limit := by
    rw [hbag, closingBag]
    cases j.options.timings with
    | false => exact hfull
    | true =>
      obtain ⟨more, hlist, hmore⟩ := toList_addAlways j.fullBag (j.timingReport t)
      rw [if_pos rfl, if_pos rfl, hlist, hfull, List.filter_append]
      have hkept : (j.findings.take j.limit).filter (·.code ≠ .timings) =
          j.findings.take j.limit :=
        List.filter_eq_self.2 fun d hd =>
          decide_eq_true (code_ne_of_mem_findings (List.mem_of_mem_take hd) (by decide))
      have hgone : more.filter (·.code ≠ .timings) = [] := by
        refine List.filter_eq_nil_iff.2 fun d hd => ?_
        rw [hmore d hd]
        exact fun hne => of_decide_eq_true hne rfl
      rw [hkept, hgone, List.append_nil]
  rw [Outcome.view, h.path_eq, h.fragments_eq, h.output_eq, hreports, view]

/-- A run without caches shows what the job gives. -/
theorem view_run_uncached {s : Shared} (hstore : j.store = none) (hmemo : s.memo = none) :
    (j.run s).1.view j.options.timings = j.view := by
  have hkeeps : j.Keeps fun key p => key = j.key ∧ p = j.payload := by
    refine ⟨Digest.isFull_ofText _, ⟨rfl, rfl⟩, fun _ h => h.2, fun hsome => ?_⟩
    rw [hstore] at hsome
    cases hsome
  have hfaithful : Faithful none (fun key p => key = j.key ∧ p = j.payload) s := by
    refine ⟨fun m hm => ?_, fun st hst => ?_⟩
    · rw [hmemo] at hm
      cases hm
    · cases hst
  refine view_of_shows (shows_runFrom (fun st hst => ?_) hkeeps hfaithful .waiting).1
  rw [hstore] at hst
  exact hst

end Job

namespace Folder

/-- What there is to see of a source that is transpiled alone and without caches, as the
file with the number `i`.  A source that cannot be loaded has one error. -/
def viewAlone (d : Disk) (o : BuildOptions) (i : Nat) (path : Text) : View :=
  match transpileFile path o none 0 { disk := d } with
  | .ok (_, out, _) => (out.view o.timings).shift (.toFile 0 (.ofNat i))
  | .error fault =>
    ⟨Path.clean path, [], [],
      [.error .loadFailure (.point (.ofNat i) 0) ("failed to load file: " ++ fault.message)]⟩

section Loading

/-- The content of the file is too large when it is cleaned. -/
def Overgrown (d : Disk) (path : Text) : Prop :=
  ∃ content flags, FileSet.fetch d path = .ok (content, flags) ∧
    FileSet.sizeLimit ≤ content.length

/-- There are numbers for all sources, and offsets for what they hold when they are cleaned. -/
structure Loadable (d : Disk) (paths : List Text) : Prop where
  numbers : paths.length ≤ FileSet.sizeLimit
  offsets : ∀ path ∈ paths, ¬ Overgrown d path

/-- The file with the number `n` that a source becomes, and why it could not be loaded. -/
inductive Loads (d : Disk) (n : Nat) (path : Text) :
    SourceFile → Option FileSet.LoadFault → Prop where
  | loaded {content : Text} {flags : FileFlags}
      (fetched : FileSet.fetch d path = .ok (content, flags))
      (fits : content.length < FileSet.sizeLimit) :
      Loads d n path ⟨.ofNat n, Path.clean path, content, Source.breaks content, flags⟩ none
  | failed {fault : FileSet.LoadFault} (failed : FileSet.fetch d path = .error fault) :
      Loads d n path ⟨.ofNat n, Path.clean path, [], Source.breaks [], .isVirtual⟩ (some fault)

theorem size_of_push {set set' : FileSet} {file : SourceFile}
    (h : set'.files = set.files.push file) : set'.size = set.size + 1 := by
  rw [FileSet.size, h, Array.size_push]
  rfl

/-- **One source more.**  Its file is the last one, unless there is no number for it or its
content is too large. -/
theorem loadNext_cases (d : Disk) (set : FileSet) (path : Text) :
    (set.size < FileSet.sizeLimit ∧ ¬ Overgrown d path ∧ ∃ set' file fault,
      set'.files = set.files.push file ∧ Loads d set.size path file fault ∧
        loadNext d set path = .ok (set', fault)) ∨
    ((set.size < FileSet.sizeLimit → Overgrown d path) ∧
      ∃ fault, loadNext d set path = .error fault) := by
  unfold loadNext
  cases hfetch : FileSet.fetch d path with
  | error fault =>
    have hsmall : ¬ Overgrown d path := by
      rintro ⟨content, flags, hcontent, -⟩
      cases hfetch.symm.trans hcontent
    rw [FileSet.load_of_fault hfetch]
    rcases Nat.lt_or_ge set.size FileSet.sizeLimit with hsize | hsize
    · refine .inl ⟨hsize, hsmall, set.addVirtual path [], _, some fault, rfl, .failed hfetch, ?_⟩
      dsimp only
      rw [FileSet.store_eq_ok (by decide) hsize]
      rfl
    · refine .inr ⟨fun h => absurd hsize (Nat.not_le_of_lt h), .full, ?_⟩
      dsimp only
      rw [FileSet.store_eq_full (by decide) hsize]
  | ok fetched =>
    rw [FileSet.load_of_fetch hfetch]
    rcases Nat.lt_or_ge fetched.1.length FileSet.sizeLimit with hcontent | hcontent
    · have hsmall : ¬ Overgrown d path := by
        rintro ⟨content, flags, hsame, hlarge⟩
        cases hfetch.symm.trans hsame
        exact absurd hlarge (Nat.not_le_of_lt hcontent)
      rcases Nat.lt_or_ge set.size FileSet.sizeLimit with hsize | hsize
      · rw [FileSet.store_eq_ok hcontent hsize]
        exact .inl ⟨hsize, hsmall, _, _, none, rfl, .loaded hfetch hcontent, rfl⟩
      · rw [FileSet.store_eq_full hcontent hsize]
        exact .inr ⟨fun h => absurd hsize (Nat.not_le_of_lt h), _, rfl⟩
    · rw [FileSet.store_eq_tooLarge hcontent]
      exact .inr ⟨fun _ => ⟨_, _, hfetch, hcontent⟩, _, rfl⟩

/-- The first source of several that were loaded. -/
theorem loadAll_cons {d : Disk} {set : FileSet} {path : Text} {paths : List Text} {loaded : Loaded}
    (h : loadAll d set (path :: paths) = .ok loaded) :
    set.size < FileSet.sizeLimit ∧ ¬ Overgrown d path ∧ ∃ set' file fault rest,
      set'.files = set.files.push file ∧ Loads d set.size path file fault ∧
        loadAll d set' paths = .ok rest ∧ loaded = { rest with faults := fault :: rest.faults } := by
  rw [loadAll] at h
  rcases loadNext_cases d set path with
    ⟨hsize, hsmall, set', file, fault, hpush, hloads, hnext⟩ | ⟨-, fault, hnext⟩
  · rw [hnext] at h
    dsimp only at h
    cases hrest : loadAll d set' paths with
    | error fault =>
      rw [hrest] at h
      cases h
    | ok rest =>
      rw [hrest] at h
      exact ⟨hsize, hsmall, set', file, fault, rest, hpush, hloads, hrest, (Except.ok.inj h).symm⟩
  · rw [hnext] at h
    cases h

/-- **All sources are loaded or the run breaks off.** -/
theorem exists_loadAll_iff (d : Disk) {set : FileSet} (hset : set.size ≤ FileSet.sizeLimit)
    (paths : List Text) :
    (∃ loaded, loadAll d set paths = .ok loaded) ↔
      set.size + paths.length ≤ FileSet.sizeLimit ∧ ∀ path ∈ paths, ¬ Overgrown d path := by
  induction paths generalizing set with
  | nil => exact ⟨fun _ => ⟨hset, List.forall_mem_nil _⟩, fun _ => ⟨_, rfl⟩⟩
  | cons path paths ih =>
    rw [List.forall_mem_cons]
    constructor
    · rintro ⟨loaded, h⟩
      obtain ⟨hsize, hsmall, set', file, fault, rest, hpush, -, hrest, -⟩ := loadAll_cons h
      have hnext := size_of_push hpush
      obtain ⟨hcount, hothers⟩ := (ih (by omega)).1 ⟨rest, hrest⟩
      exact ⟨by rw [List.length_cons]; omega, hsmall, hothers⟩
    · rintro ⟨hcount, hsmall, hothers⟩
      rw [List.length_cons] at hcount
      rcases loadNext_cases d set path with
        ⟨hsize, -, set', file, fault, hpush, -, hnext⟩ | ⟨hfault, -⟩
      · have hpushed := size_of_push hpush
        obtain ⟨rest, hrest⟩ := (@ih set' (by omega)).2 ⟨by omega, hothers⟩
        exact ⟨_, by rw [loadAll, hnext]; dsimp only; rw [hrest]⟩
      · exact absurd (hfault (by omega)) hsmall

theorem exists_loadAll_of_loadable {d : Disk} {paths : List Text} (h : Loadable d paths)
    (base : Text) : ∃ loaded, loadAll d { base } paths = .ok loaded := by
  refine (exists_loadAll_iff d (Nat.zero_le _) paths).2 ⟨?_, h.offsets⟩
  exact (Nat.zero_add _).trans_le h.numbers

theorem loadable_of_loadAll {d : Disk} {paths : List Text} {base : Text} {loaded : Loaded}
    (h : loadAll d { base } paths = .ok loaded) : Loadable d paths := by
  obtain ⟨hcount, hothers⟩ := (exists_loadAll_iff d (Nat.zero_le _) paths).1 ⟨loaded, h⟩
  exact ⟨(Nat.zero_add _).symm.trans_le hcount, hothers⟩

theorem loadable_of_isOk {d : Disk} {paths : List Text} (base : Text)
    (h : (loadAll d { base } paths).isOk = true) : Loadable d paths := by
  cases hloaded : loadAll d { base } paths with
  | ok loaded => exact loadable_of_loadAll hloaded
  | error fault =>
    rw [hloaded] at h
    cases h

/-- Files that are there already stay. -/
theorem getElem?_loadAll {d : Disk} {set : FileSet} {paths : List Text} {loaded : Loaded}
    (h : loadAll d set paths = .ok loaded) {i : Nat} (hi : i < set.size) :
    loaded.set.files[i]? = set.files[i]? := by
  induction paths generalizing set loaded with
  | nil =>
    obtain rfl := Except.ok.inj h
    rfl
  | cons path paths ih =>
    obtain ⟨-, -, set', file, fault, rest, hpush, -, hrest, rfl⟩ := loadAll_cons h
    have hsize := size_of_push hpush
    rw [ih hrest (by omega), hpush, Array.getElem?_push_lt hi, Array.getElem?_eq_getElem hi]

theorem size_loadAll {d : Disk} {set : FileSet} {paths : List Text} {loaded : Loaded}
    (h : loadAll d set paths = .ok loaded) : loaded.set.size = set.size + paths.length := by
  induction paths generalizing set loaded with
  | nil =>
    obtain rfl := Except.ok.inj h
    rfl
  | cons path paths ih =>
    obtain ⟨-, -, set', file, fault, rest, hpush, -, hrest, rfl⟩ := loadAll_cons h
    have hsize := size_of_push hpush
    show rest.set.size = _
    rw [ih hrest, hsize, List.length_cons, Nat.add_assoc, Nat.add_comm 1]

/-- **Each source becomes a file of its own.** -/
theorem loads_loadAll {d : Disk} {set : FileSet} {paths : List Text} {loaded : Loaded}
    (h : loadAll d set paths = .ok loaded) {i : Nat} {path : Text} (hpath : paths[i]? = some path) :
    ∃ file, loaded.set.files[set.size + i]? = some file ∧
      Loads d (set.size + i) path file (loaded.faults.getD i none) := by
  induction paths generalizing set loaded i with
  | nil => cases hpath
  | cons first paths ih =>
    obtain ⟨-, -, set', file, fault, rest, hpush, hloads, hrest, rfl⟩ := loadAll_cons h
    have hsize := size_of_push hpush
    cases i with
    | zero =>
      obtain rfl := Option.some.inj hpath
      refine ⟨file, ?_, hloads⟩
      show rest.set.files[set.size + 0]? = _
      rw [getElem?_loadAll hrest (by omega), hpush]
      exact Array.getElem?_push_size
    | succ i =>
      obtain ⟨file', hfile, hloads'⟩ := ih hrest hpath
      rw [hsize, Nat.add_assoc, Nat.add_comm 1] at hfile hloads'
      exact ⟨file', hfile, hloads'⟩

end Loading

section Schedules

variable {f : Folder} {store : Option Store} {kept : Digest → Payload → Prop} {st : State}
  {i : Nat}

/-- The jobs for all files. -/
def jobs (f : Folder) : List Job := f.set.files.toList.map f.job

/-- The outcome is the one that the file should have. -/
structure Right (f : Folder) (i : Nat) (o : Outcome) : Prop where
  loaded : ∀ file, f.set.files[i]? = some file → f.faults.getD i none = none →
    (f.job file).Shows (f.job file).script.fragments (f.job file).fullBag o
  failed : ∀ file fault, f.set.files[i]? = some file → f.faults.getD i none = some fault →
    o = f.unloaded file fault

/-- What is done with a file is right so far. -/
inductive Sound (f : Folder) (i : Nat) : Work → Prop where
  | queued : Sound f i .queued
  | given : Sound f i .given
  | running {stage : Job.Stage} (loaded : f.faults.getD i none = none)
      (track : ∀ file, f.set.files[i]? = some file → (f.job file).OnTrack stage) :
      Sound f i (.running stage)
  | finished {o : Outcome} (right : f.Right i o) : Sound f i (.running (.finished o))
  | done {o : Outcome} (right : f.Right i o) : Sound f i (.done o)

/-- The caches are faithful and all files stand as they should. -/
structure Sane (f : Folder) (store : Option Store) (kept : Digest → Payload → Prop) (st : State) :
    Prop where
  faithful : Faithful store kept st.shared
  sound : ∀ i w, st.works[i]? = some w → f.Sound i w

theorem sane_initial (f : Folder) {s : Shared} (h : Faithful store kept s) :
    f.Sane store kept (f.initial s) := by
  refine ⟨h, fun i w hw => ?_⟩
  obtain rfl := List.eq_of_mem_replicate (List.mem_of_getElem? hw)
  exact .queued

/-- The work on one file goes on. -/
theorem Sane.set {w : Work} (h : f.Sane store kept st) (hw : f.Sound i w) {s : Shared}
    (hs : Faithful store kept s) (events : List FileEvent) :
    f.Sane store kept ⟨st.works.set i w, events, s⟩ := by
  refine ⟨hs, fun k v hv => ?_⟩
  by_cases hk : i = k
  · subst hk
    rw [List.getElem?_set_self'] at hv
    obtain ⟨-, -, rfl⟩ := Option.map_eq_some_iff.1 hv
    exact hw
  · rw [List.getElem?_set_ne hk] at hv
    exact h.sound k v hv

/-- **A step with any file keeps everything as it should be.** -/
theorem Sane.advance (hstore : ∀ st ∈ f.store, st ∈ store)
    (hkeeps : ∀ j ∈ f.jobs, j.Keeps kept) (h : f.Sane store kept st) (i : Nat) :
    f.Sane store kept (f.advance st i) := by
  generalize hst' : f.advance st i = st'
  have hadvances := f.advances st i
  rw [hst'] at hadvances
  cases hadvances with
  | idle _ => exact h
  | given => exact h.set .given h.faithful _
  | started work has =>
    rename_i file
    rw [begin]
    split
    · rename_i fault hfault
      have hright : f.Right i (f.unloaded file fault) := by
        refine ⟨fun file' _ hnone => ?_, fun file' fault' hfile' hsome => ?_⟩
        · rw [hfault] at hnone
          cases hnone
        · obtain rfl : file = file' := Option.some.inj (has.symm.trans hfile')
          obtain rfl : fault = fault' := Option.some.inj (hfault.symm.trans hsome)
          rfl
      refine h.set (.finished hright) ?_ _
      exact h.faithful.congr rfl rfl
    · rename_i hnone
      exact h.set (.running hnone fun _ _ => .waiting) h.faithful _
  | stepped work has more =>
    rename_i file stage
    have hjob : f.job file ∈ f.jobs :=
      List.mem_map_of_mem (Array.mem_toList_iff.2 (Array.mem_of_getElem? has))
    cases h.sound i _ work with
    | running loaded track =>
      obtain ⟨htrack, hfaithful⟩ :=
        Job.onTrack_step hstore (hkeeps _ hjob) h.faithful (track file has)
      refine h.set (.running loaded fun file' hfile' => ?_) hfaithful _
      obtain rfl : file = file' := Option.some.inj (has.symm.trans hfile')
      exact htrack
    | finished right => exact absurd rfl more
  | ended work =>
    cases h.sound i _ work with
    | running loaded track =>
      refine h.set (.done ⟨fun file hfile _ => ?_, fun file fault _ hsome => ?_⟩) h.faithful _
      · cases track file hfile with
        | finished shows => exact shows
      · rw [loaded] at hsome
        cases hsome
    | finished right => exact h.set (.done right) h.faithful _

/-- **Every schedule keeps everything as it should be.** -/
theorem Sane.follow (hstore : ∀ st ∈ f.store, st ∈ store)
    (hkeeps : ∀ j ∈ f.jobs, j.Keeps kept) (h : f.Sane store kept st) (schedule : List Nat) :
    f.Sane store kept (f.follow st schedule) := by
  induction schedule generalizing st with
  | nil => exact h
  | cons i r ih => exact ih (h.advance hstore hkeeps i)

/-- The view of a file that is loaded, as that of a job with its number. -/
theorem viewAlone_of_fetch {d : Disk} {o : BuildOptions} {path content : Text} {flags : FileFlags}
    (h : FileSet.fetch d path = .ok (content, flags)) (hfits : content.length < FileSet.sizeLimit)
    (i : Nat) :
    viewAlone d o i path =
      (Job.inFile ⟨({} : FileSet).fresh path content flags, o, none, 0⟩ (.ofNat i)).view := by
  have hload := FileSet.load_of_fetch h {}
  rw [FileSet.store_eq_ok hfits (by decide)] at hload
  have halone := Job.view_run_uncached ⟨({} : FileSet).fresh path content flags, o, none, 0⟩
    (s := { disk := d }) rfl rfl
  rw [Job.view_inFile, ← halone, viewAlone, transpileFile, hload]
  rfl

/-- A file that could not be loaded has exactly one report. -/
theorem view_unloaded (f : Folder) (file : SourceFile) (fault : FileSet.LoadFault) :
    (f.unloaded file fault).view f.options.timings =
      ⟨file.path, [], [],
        [.error .loadFailure (.point file.id 0) ("failed to load file: " ++ fault.message)]⟩ := by
  have hone : (f.unloaded file fault).bag.toList =
      [.error .loadFailure (.point file.id 0) ("failed to load file: " ++ fault.message)] := by
    obtain ⟨n, hn⟩ := Nat.exists_eq_add_of_lt (Bag.capacity_pos f.options.maxDiagnostics)
    rw [unloaded, Bag.toList_ofList, hn, Nat.zero_add, List.take_succ_cons, List.take_nil]
  rw [Outcome.view, hone]
  cases f.options.timings <;> rfl

example : Code.loadFailure.id = Text.ofString "IO4001" := by decide +kernel

/-- **The outcome that a file should have shows what the file gives alone.** -/
theorem view_of_right {d : Disk} {base path : Text} {paths : List Text} {loaded : Loaded}
    (hloaded : loadAll d { base } paths = .ok loaded) {o : BuildOptions} {store : Option Store}
    {workers parent i : Nat} {out : Outcome} (hpath : paths[i]? = some path)
    (h : (opened loaded paths o store workers parent).Right i out) :
    out.view o.timings = viewAlone d o i path := by
  obtain ⟨file, hfile, hloads⟩ := loads_loadAll hloaded hpath
  have hsize : ({ base } : FileSet).size + i = i := Nat.zero_add i
  rw [hsize] at hfile hloads
  generalize hfault : loaded.faults.getD i none = fault at hloads
  cases hloads with
  | loaded fetched fits =>
    rw [viewAlone_of_fetch fetched fits]
    exact Job.view_of_shows (h.loaded _ hfile hfault)
  | failed failed =>
    rename_i fault
    rw [viewAlone, transpileFile, FileSet.load_of_fault failed, h.failed _ fault hfile hfault]
    exact view_unloaded _ _ fault

/-- The files of the views have the cleaned paths of the sources. -/
theorem path_viewAlone (d : Disk) (o : BuildOptions) (i : Nat) (path : Text) :
    (viewAlone d o i path).path = Path.clean path := by
  cases hfetch : FileSet.fetch d path with
  | error fault => rw [viewAlone, transpileFile, FileSet.load_of_fault hfetch]
  | ok fetched =>
    rcases Nat.lt_or_ge fetched.1.length FileSet.sizeLimit with hfits | hlarge
    · rw [viewAlone_of_fetch hfetch hfits]
      rfl
    · rw [viewAlone, transpileFile, FileSet.load_of_fetch hfetch, FileSet.store_eq_tooLarge hlarge]

theorem paths_viewAlone (d : Disk) (o : BuildOptions) (paths : List Text) :
    (paths.mapIdx (viewAlone d o)).map (·.path) = paths.map Path.clean := by
  refine List.ext_getElem? fun i => ?_
  rw [List.getElem?_map, List.getElem?_mapIdx, List.getElem?_map, Option.map_map]
  exact congrArg (fun g => paths[i]?.map g) (funext fun path => path_viewAlone d o i path)

end Schedules

section Results

variable {store : Option Store} {dir : Text} {paths : List Text} {o : BuildOptions}
  {workers parent : Nat} {s : Shared} {kept : Digest → Payload → Prop} {loaded : Loaded}

theorem size_files_opened (hloaded : loadAll s.disk { base := dir } paths = .ok loaded)
    (o : BuildOptions) (store : Option Store) (workers parent : Nat) :
    (opened loaded paths o store workers parent).set.files.size = paths.length :=
  (size_loadAll hloaded).trans (Nat.zero_add _)

/-- **A directory run opens the sources and follows the schedule**: its results and events
are those of the state at the end. -/
theorem runWith_eq_follow (o : BuildOptions) (store : Option Store) (workers parent : Nat)
    (hsources : Target.sources s.disk dir = .ok paths)
    (hloaded : loadAll s.disk { base := dir } paths = .ok loaded) :
    ∃ s₁ span, s₁.memo = s.memo ∧ s₁.disk = s.disk ∧ ∀ schedule, ∃ st r s',
      st = (opened loaded paths o store workers span).follow
        ((opened loaded paths o store workers span).initial s₁) (schedule paths.length) ∧
      runWith schedule dir o store workers parent false s = (.ok r, s') ∧
      r.outcomes = st.works.map (·.outcome?) ∧ r.events = st.events := by
  cases paths with
  | nil =>
    refine ⟨s, 0, rfl, rfl, fun schedule => ⟨_, _, _, rfl, by rw [runWith, hsources], ?_⟩⟩
    rw [follow_of_works_nil _ rfl]
    exact ⟨rfl, rfl⟩
  | cons path paths =>
    exact ⟨{ s with tracer := (s.tracer.spanBegin .driver "transpile-dir" parent).2 }, _, rfl, rfl,
      fun schedule => ⟨_, _, _, rfl, by rw [runWith, hsources]; dsimp only; rw [hloaded], rfl, rfl⟩⟩

/-- **A directory run breaks off** if its sources cannot all be taken in. -/
theorem runWith_of_not_loadable (hsources : Target.sources s.disk dir = .ok paths)
    (h : ¬ Loadable s.disk paths) (schedule : Nat → List Nat) (o : BuildOptions)
    (store : Option Store) (workers parent : Nat) :
    ∃ fault s', runWith schedule dir o store workers parent false s =
      (.error (.brokenOff fault), s') := by
  cases paths with
  | nil => exact absurd ⟨Nat.zero_le _, List.forall_mem_nil _⟩ h
  | cons path paths =>
    cases hloaded : loadAll s.disk { base := dir } (path :: paths) with
    | ok loaded => exact absurd (loadable_of_loadAll hloaded) h
    | error fault => exact ⟨fault, _, by rw [runWith, hsources]; dsimp only; rw [hloaded]⟩

/-- A run with a result has taken its sources in. -/
theorem loadable_of_runWith {schedule : Nat → List Nat} {s' : Shared} {r : Result}
    (hsources : Target.sources s.disk dir = .ok paths)
    (hrun : runWith schedule dir o store workers parent false s = (.ok r, s')) :
    Loadable s.disk paths := by
  by_contra hnot
  obtain ⟨fault, s'', hbroken⟩ :=
    runWith_of_not_loadable hsources hnot schedule o store workers parent
  cases hrun.symm.trans hbroken

/-- The results of a directory run. -/
theorem runWith_eq (o : BuildOptions) (store : Option Store) (workers parent : Nat)
    (hsources : Target.sources s.disk dir = .ok paths)
    (hloaded : loadAll s.disk { base := dir } paths = .ok loaded) :
    ∃ s₁ span, s₁.memo = s.memo ∧ s₁.disk = s.disk ∧ ∀ schedule, ∃ r s',
      runWith schedule dir o store workers parent false s = (.ok r, s') ∧
        r.outcomes = ((opened loaded paths o store workers span).follow
          ((opened loaded paths o store workers span).initial s₁)
            (schedule paths.length)).works.map (·.outcome?) := by
  obtain ⟨s₁, span, hmemo, hdisk, hrun⟩ :=
    runWith_eq_follow o store workers parent hsources hloaded
  refine ⟨s₁, span, hmemo, hdisk, fun schedule => ?_⟩
  obtain ⟨st, r, s', rfl, heq, houtcomes, -⟩ := hrun schedule
  exact ⟨r, s', heq, houtcomes⟩

/-- What the works of a state show: of each file that is done what it gives alone. -/
theorem view_of_sane (hloaded : loadAll s.disk { base := dir } paths = .ok loaded) {span : Nat}
    {st : State} (h : (opened loaded paths o store workers span).Sane store kept st) {i : Nat} {path : Text}
    (hpath : paths[i]? = some path) {out : Outcome}
    (hout : (st.works.map (·.outcome?))[i]? = some (some out)) :
    out.view o.timings = viewAlone s.disk o i path := by
  rw [List.getElem?_map] at hout
  obtain ⟨w, hw, hdone⟩ := Option.map_eq_some_iff.1 hout
  have hsound := h.sound i w hw
  cases w with
  | queued => cases hdone
  | given => cases hdone
  | running stage => cases hdone
  | done o' =>
    obtain rfl := Option.some.inj hdone
    cases hsound with
    | done right => exact view_of_right hloaded hpath right

/-- If all files are done, all views are there. -/
theorem views_of_settled (hloaded : loadAll s.disk { base := dir } paths = .ok loaded) {span : Nat}
    {st : State} (h : (opened loaded paths o store workers span).Sane store kept st)
    (hlength : st.works.length = paths.length) (hsettled : st.Settled) :
    (st.works.map (·.outcome?)).map (Option.map (Outcome.view o.timings)) =
      (paths.mapIdx (viewAlone s.disk o)).map some := by
  refine List.ext_getElem? fun i => ?_
  have hwant : ((paths.mapIdx (viewAlone s.disk o)).map some)[i]? =
      paths[i]?.map fun path => some (viewAlone s.disk o i path) := by
    rw [List.getElem?_map, List.getElem?_mapIdx, Option.map_map]
    rfl
  rw [hwant, List.getElem?_map]
  cases hpath : paths[i]? with
  | none =>
    rw [List.getElem?_eq_none_iff] at hpath
    have hnone : st.works[i]? = none := List.getElem?_eq_none_iff.2 (by omega)
    rw [List.getElem?_map, hnone]
    rfl
  | some path =>
    obtain ⟨hi, -⟩ := List.getElem?_eq_some_iff.1 hpath
    have hi' : i < st.works.length := hlength ▸ hi
    obtain ⟨out, hout⟩ := Work.rank_eq_zero_iff.1 (hsettled _ (List.getElem_mem hi'))
    have hat : (st.works.map (·.outcome?))[i]? = some (some out) := by
      rw [List.getElem?_map, List.getElem?_eq_getElem hi', hout]
      rfl
    rw [hat, Option.map_some, Option.map_some, Option.map_some, view_of_sane hloaded h hpath hat]

end Results
end Folder

/-- The memo and the store after earlier runs.  The list holds the jobs of these runs, and
`store` is the store of those that had one. -/
inductive CachesAfter (store : Option Store) : List Job → Shared → Prop where
  /-- Both are empty. -/
  | fresh {s : Shared} (memo : ∀ m ∈ s.memo, m.entries = [])
      (disk : ∀ st ∈ store, st.Fresh s.disk) : CachesAfter store [] s
  /-- A single file was transpiled. -/
  | file {js : List Job} {s : Shared} (before : CachesAfter store js s) (j : Job)
      (uses : ∀ st ∈ j.store, st ∈ store) : CachesAfter store (j :: js) (j.run s).2
  /-- The workers of a directory run took some steps. -/
  | folder {js : List Job} {s : Shared} (before : CachesAfter store js s) (f : Folder)
      (uses : ∀ st ∈ f.store, st ∈ store) (schedule : List Nat) :
      CachesAfter store (f.jobs ++ js) (f.follow (f.initial s) schedule).shared
  /-- The program was started again, with a new memo, or files were changed that do not
  belong to the store. -/
  | between {js : List Job} {s s' : Shared} (before : CachesAfter store js s)
      (memo : s'.memo = s.memo ∨ ∀ m ∈ s'.memo, m.entries = [])
      (disk : ∀ st ∈ store, st.Spares s.disk s'.disk) : CachesAfter store js s'

/-- **Earlier runs leave the caches faithful.** -/
theorem CachesAfter.faithful {store : Option Store} {js : List Job} {s : Shared}
    {kept : Digest → Payload → Prop} (h : CachesAfter store js s)
    (hkeeps : ∀ j ∈ js, j.Keeps kept) : Faithful store kept s := by
  induction h with
  | fresh memo disk =>
    refine ⟨fun m hm x hx => ?_, fun st hst => (disk st hst).tidy kept⟩
    rw [memo m hm] at hx
    cases hx
  | file before j uses ih =>
    obtain ⟨hj, hjs⟩ := List.forall_mem_cons.1 hkeeps
    exact (Job.shows_runFrom uses hj (ih hjs) .waiting).2
  | folder before f uses schedule ih =>
    obtain ⟨hf, hjs⟩ := List.forall_mem_append.1 hkeeps
    exact ((f.sane_initial (ih hjs)).follow uses hf schedule).faithful
  | between before memo disk ih =>
    have hbefore := ih hkeeps
    refine ⟨fun m hm x hx => ?_, fun st hst => ?_⟩
    · rcases memo with hsame | hnew
      · exact hbefore.memo m (hsame ▸ hm) x hx
      · rw [hnew m hm] at hx
        cases hx
    · obtain ⟨base, htidy⟩ := hbefore.store st hst
      exact ⟨base, htidy.of_spares (disk st hst)⟩

namespace Folder

/-- The jobs for the sources under a directory. -/
def jobsUnder (d : Disk) (dir : Text) (paths : List Text) (o : BuildOptions)
    (store : Option Store) : List Job :=
  match loadAll d { base := dir } paths with
  | .ok loaded => (opened loaded paths o store 1 0).jobs
  | .error _ => []

/-- After earlier runs every schedule keeps everything as it should be. -/
theorem sane_opened {store : Option Store} {earlier : List Job} {s s₁ : Shared} {dir : Text}
    {paths : List Text} {o : BuildOptions} {loaded : Loaded}
    (hloaded : loadAll s.disk { base := dir } paths = .ok loaded)
    (hcaches : CachesAfter store earlier s)
    (hkinds : BuildOptions.KindsDecide (o :: earlier.map Job.options))
    (hfits : ∀ j ∈ earlier ++ jobsUnder s.disk dir paths o store,
      j.store.isSome → j.payload.Fits)
    (hfree : Digest.CollisionFree
      ((earlier ++ jobsUnder s.disk dir paths o store).flatMap Job.hashed))
    (hmemo : s₁.memo = s.memo) (hdisk : s₁.disk = s.disk) (workers span : Nat)
    (schedule : List Nat) :
    (opened loaded paths o store workers span).Sane store
      (Job.Kept (earlier ++ jobsUnder s.disk dir paths o store))
      ((opened loaded paths o store workers span).follow
        ((opened loaded paths o store workers span).initial s₁) schedule) := by
  have hunder : jobsUnder s.disk dir paths o store = (opened loaded paths o store 1 0).jobs := by
    rw [jobsUnder, hloaded]
  have hsame : BuildOptions.KindsDecide
      ((earlier ++ jobsUnder s.disk dir paths o store).map Job.options) := by
    refine hkinds.mono fun o' ho' => ?_
    rw [List.map_append, List.mem_append] at ho'
    rcases ho' with ho' | ho'
    · exact List.mem_cons_of_mem o ho'
    · obtain ⟨j, hj, rfl⟩ := List.mem_map.1 ho'
      rw [hunder] at hj
      obtain ⟨file, -, rfl⟩ := List.mem_map.1 hj
      exact List.mem_cons_self
  have hkeeps (j : Job) (hj : j ∈ earlier ++ jobsUnder s.disk dir paths o store) :
      j.Keeps (Job.Kept (earlier ++ jobsUnder s.disk dir paths o store)) :=
    Job.keeps_of_mem hj hfree hsame (hfits j hj)
  obtain ⟨hearlier, hjobs⟩ := List.forall_mem_append.1 hkeeps
  have hown : ∀ j ∈ (opened loaded paths o store workers span).jobs,
      j.Keeps (Job.Kept (earlier ++ jobsUnder s.disk dir paths o store)) := by
    intro j hj
    obtain ⟨file, hfile, rfl⟩ := List.mem_map.1 hj
    -- the span that a job belongs to has no part in what it keeps
    obtain ⟨full, payload, only, fits⟩ := hjobs _ (by
      rw [hunder]
      exact List.mem_map_of_mem hfile)
    exact ⟨full, payload, only, fits⟩
  have hfaithful := (hcaches.faithful hearlier).congr hmemo hdisk
  exact (sane_initial _ hfaithful).follow (fun _ => id) hown schedule

/-- **Directory runs do not depend on the schedule** as far as renamers of one kind spell alike,
and break off if a source is too large when it is cleaned.  The sources under a directory are
transpiled by any number of workers that share a memo of any limit, a store, or both,
empty or with what earlier runs left there.  Then the results come in the order of the
paths.  Whatever steps the workers have taken in whichever order, each result that is
there has the path, fragments, output and reports that its file has when it is transpiled
alone and without caches, with the places in its own file, and one error alone if it could
not be loaded.  Every fair schedule gets to the point where all results are there, and so
does the run that takes the files in order.

Only the timer, the report on timings and whether a result was kept are left out of the
comparison.  The store writes every size in four bytes, so with a store the results have to
fit its format. -/
theorem views_runWith_eq_alone {store : Option Store} {earlier : List Job} {s : Shared}
    {dir : Text} {paths : List Text} {o : BuildOptions} (hcaches : CachesAfter store earlier s)
    (hsources : Target.sources s.disk dir = .ok paths)
    (hkinds : BuildOptions.KindsDecide (o :: earlier.map Job.options))
    (hfits : ∀ j ∈ earlier ++ jobsUnder s.disk dir paths o store,
      j.store.isSome → j.payload.Fits)
    (hfree : Digest.CollisionFree
      ((earlier ++ jobsUnder s.disk dir paths o store).flatMap Job.hashed))
    (workers parent : Nat) :
    (¬ Loadable s.disk paths → ∀ schedule, ∃ fault s',
      runWith schedule dir o store workers parent false s = (.error (.brokenOff fault), s')) ∧
    (Loadable s.disk paths →
      ((paths.mapIdx (viewAlone s.disk o)).map (·.path)).Pairwise (· ≤ ·) ∧
      (∀ schedule : List Nat, ∃ r s',
        runWith (fun _ => schedule) dir o store workers parent false s = (.ok r, s') ∧
          r.outcomes.length = paths.length ∧
          ∀ i path, paths[i]? = some path → ∀ out, r.outcomes[i]? = some (some out) →
            out.view o.timings = viewAlone s.disk o i path) ∧
      (∀ who : Nat → Nat, Fair paths.length who → ∃ n, ∀ m ≥ n, ∃ r s',
        runWith (fun _ => (List.range m).map who) dir o store workers parent false s =
            (.ok r, s') ∧
          r.outcomes.map (Option.map (Outcome.view o.timings)) =
            (paths.mapIdx (viewAlone s.disk o)).map some) ∧
      ∃ r s', run dir o store workers parent false s = (.ok r, s') ∧
        r.outcomes.map (Option.map (Outcome.view o.timings)) =
          (paths.mapIdx (viewAlone s.disk o)).map some) := by
  refine ⟨fun hnot schedule => ?_, fun hloadable => ?_⟩
  · exact runWith_of_not_loadable hsources hnot schedule o store workers parent
  obtain ⟨loaded, hloaded⟩ := exists_loadAll_of_loadable hloadable dir
  obtain ⟨s₁, span, hmemo, hdisk, hrun⟩ := runWith_eq o store workers parent hsources hloaded
  have hsane := sane_opened hloaded hcaches hkinds hfits hfree hmemo hdisk workers span
  have hfiles := size_files_opened hloaded o store workers span
  have hworkers : 0 < (opened loaded paths o store workers span).workers :=
    Nat.lt_of_lt_of_le Nat.zero_lt_one (Nat.le_max_left 1 workers)
  have hstart : ((opened loaded paths o store workers span).initial s₁).works.length =
      paths.length := List.length_replicate
  have hlength (schedule : List Nat) : ((opened loaded paths o store workers span).follow
      ((opened loaded paths o store workers span).initial s₁) schedule).works.length =
        paths.length := (length_works_follow _ _ schedule).trans hstart
  refine ⟨?_, fun schedule => ?_, fun who hfair => ?_, ?_⟩
  · rw [paths_viewAlone]
    exact Target.pairwise_sources hsources
  · obtain ⟨r, s', heq, houtcomes⟩ := hrun fun _ => schedule
    refine ⟨r, s', heq, ?_, fun i path hpath out hout => ?_⟩
    · rw [houtcomes, List.length_map, hlength]
    · rw [houtcomes] at hout
      exact view_of_sane hloaded (hsane schedule) hpath hout
  · obtain ⟨n, hn⟩ := exists_settled (hstart.trans hfiles.symm).le hworkers (hstart.symm ▸ hfair)
    refine ⟨n, fun m hm => ?_⟩
    obtain ⟨r, s', heq, houtcomes⟩ := hrun fun _ => (List.range m).map who
    refine ⟨r, s', heq, ?_⟩
    rw [houtcomes]
    exact views_of_settled hloaded (hsane _) (hlength _) (hn m hm)
  · obtain ⟨r, s', heq, houtcomes⟩ := hrun inOrder
    refine ⟨r, s', heq, ?_⟩
    rw [houtcomes]
    exact views_of_settled hloaded (hsane _) (hlength _) (settled_inOrder _ s₁ hfiles hworkers)

/-- Two sources with one content, a link to nothing between them, and the directory of a
store. -/
def sharedDisk : Disk :=
  { entries := [(["src"], .directory), (["src", "a.lugha"], .file "x"),
      (["src", "b.lugha"], .link "/gone"), (["src", "c.lugha"], .file "x"),
      (["cache"], .directory)] }

/-- A job for the same content under another name. -/
def earlierJob : Job := .ofSource "d" "x" {} (some ⟨"/cache"⟩)

/-- The caches after that job, with room for one payload in the memo. -/
def usedCaches : Shared := (earlierJob.run { disk := sharedDisk, memo := some (.new 1) }).2

/-- The paths of the sources. -/
def sharedPaths : List Text := ["/src/a.lugha", "/src/b.lugha", "/src/c.lugha"]

theorem sources_usedCaches : Target.sources usedCaches.disk "/src" = .ok sharedPaths :=
  Target.sources_of_below (p := ["src"]) (by decide +kernel) (by decide +kernel) (by decide)

theorem loadable_sharedDisk : Loadable sharedDisk sharedPaths :=
  loadable_of_isOk "/src" (by decide)

/-- The worker of the second source tells of it first, and those of the first and the last one
both ask the caches before one of them has kept its result. -/
def racing : List Nat := [0, 1, 1, 0, 1, 2, 2] ++ (List.replicate 7 [0, 2]).flatten

/-- Two workers with a memo alone follow a schedule: which files they tell of when they start, and
which results they find kept. -/
def keptWith (schedule : List Nat) : List Nat × List (Option Bool) :=
  match loadAll sharedDisk { base := "/src" } sharedPaths with
  | .error _ => ([], [])
  | .ok loaded =>
    let f := opened loaded sharedPaths {} none 2 0
    let st := f.follow (f.initial { disk := sharedDisk, memo := some (.new 1) }) schedule
    ((st.events.filter (!·.done)).map (·.index), st.works.map fun w => w.outcome?.map (·.cached))

/-- The last source finds the result of the first one kept, or does not, as the schedule has
it; what is to see of them is the same. -/
theorem views_runWith_eq_alone_racing :
    keptWith racing = ([1, 0, 2], [some false, some false, some false]) ∧
      keptWith (inOrder 3) = ([0, 1, 2], [some false, some false, some true]) ∧
      CachesAfter (some ⟨"/cache"⟩) [earlierJob] usedCaches ∧
      Loadable usedCaches.disk sharedPaths ∧
      (∀ schedule : List Nat, ∃ r s',
        runWith (fun _ => schedule) "/src" {} (some ⟨"/cache"⟩) 2 0 false usedCaches =
            (.ok r, s') ∧
          r.outcomes.length = 3 ∧
          ∀ i path, sharedPaths[i]? = some path → ∀ out, r.outcomes[i]? = some (some out) →
            out.view false = viewAlone usedCaches.disk {} i path) ∧
      Fair 3 (· % 3) ∧
      ∃ n, ∀ m ≥ n, ∃ r s',
        runWith (fun _ => (List.range m).map (· % 3)) "/src" {} (some ⟨"/cache"⟩) 2 0 false
            usedCaches = (.ok r, s') ∧
          r.outcomes.map (Option.map (Outcome.view false)) =
            (sharedPaths.mapIdx (viewAlone usedCaches.disk {})).map some := by
  have hfresh : CachesAfter (some ⟨"/cache"⟩) []
      { disk := sharedDisk, memo := some (.new 1) } := by
    refine .fresh ?_ ?_
    · rintro _ ⟨⟩
      rfl
    · rintro _ ⟨⟩
      exact ⟨⟨["cache"], by decide, by decide⟩, by decide⟩
  have hcaches : CachesAfter (some ⟨"/cache"⟩) [earlierJob] usedCaches :=
    hfresh.file earlierJob fun _ => id
  have hkinds : BuildOptions.KindsDecide ({} :: [earlierJob].map Job.options) :=
    BuildOptions.kindsDecide_of_naming_eq (some .asWritten)
      (List.forall_mem_cons.2 ⟨rfl, List.forall_mem_singleton.2 rfl⟩)
  have hfits : ∀ j ∈ [earlierJob] ++
      jobsUnder usedCaches.disk "/src" sharedPaths {} (some ⟨"/cache"⟩),
      j.store.isSome → j.payload.Fits := by decide +kernel
  have hfree : Digest.CollisionFree (([earlierJob] ++
      jobsUnder usedCaches.disk "/src" sharedPaths {} (some ⟨"/cache"⟩)).flatMap Job.hashed) := by
    decide +kernel
  have hloadable : Loadable usedCaches.disk sharedPaths :=
    loadable_of_isOk "/src" (by decide +kernel)
  have hfair : Fair 3 (· % 3) := fair_turns 3
  obtain ⟨-, hevery, hends, -⟩ :=
    (views_runWith_eq_alone hcaches sources_usedCaches hkinds hfits hfree 2 0).2 hloadable
  exact ⟨by decide +kernel, by decide +kernel, hcaches, hloadable, hevery, hfair, hends _ hfair⟩

/-- Options with a renamer that gives every name the same spelling. -/
def constantNames (spelling : Text) : BuildOptions :=
  { naming := some ⟨"constant", fun _ => spelling⟩ }

/-- A job with such a renamer. -/
def namingJob : Job := .ofSource "d" "تابع ا()" (constantNames "x") none

/-- The memo after that job, and one source with the same content. -/
def namedCaches : Shared :=
  (namingJob.run { disk := { entries := [(["src"], .directory),
    (["src", "a.lugha"], .file "تابع ا()")] }, memo := some (.new 1) }).2

/-- **A run is given the names of an earlier one** with another renamer of its kind, though the
caches hold nothing but what that one left. -/
theorem run_shows_earlier_spelling :
    CachesAfter none [namingJob] namedCaches ∧
      Target.sources namedCaches.disk "/src" = .ok ["/src/a.lugha"] ∧
      Loadable namedCaches.disk ["/src/a.lugha"] ∧
      Digest.CollisionFree (([namingJob] ++ jobsUnder namedCaches.disk "/src" ["/src/a.lugha"]
        (constantNames "y") none).flatMap Job.hashed) ∧
      (run "/src" (constantNames "y") none 1 0 false namedCaches).1.toOption.map
          (·.outcomes.map (·.map (·.fragments.take 1))) = some [some [("function x () \x7b" : Text)]] ∧
      (viewAlone namedCaches.disk (constantNames "y") 0 "/src/a.lugha").fragments.take 1 =
        [("function y () \x7b" : Text)] := by
  have hsources : Target.sources namedCaches.disk "/src" = .ok ["/src/a.lugha"] :=
    Target.sources_of_below (p := ["src"]) (by decide +kernel) (by decide +kernel) (by decide)
  have hcaches : CachesAfter none [namingJob] namedCaches := by
    refine .file (.fresh ?_ ?_) namingJob ?_
    · rintro _ ⟨⟩
      rfl
    all_goals
      intro st hst
      cases hst
  refine ⟨hcaches, hsources, loadable_of_isOk "/src" (by decide +kernel),
    by decide +kernel, ?_, by decide +kernel⟩
  rw [run, runWith, hsources]
  decide +kernel

end Folder
end Tarjuman
