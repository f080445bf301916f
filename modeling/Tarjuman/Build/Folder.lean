/-
# Transpiling a directory

All sources under a directory are loaded first.  A file that cannot be loaded gets
an error in its bag and does not stop the others, but one whose content grows too
large when it is cleaned breaks the run off.  Then workers transpile the files: in
their order files are given to workers as those become free, a worker tells that it
starts with its file when it comes to that, and what it does from then on are the
steps of a `Job`.

`Folder.advance` takes one step with one file.  Any list of files to advance is a
schedule, which `Folder.runWith` follows; `Folder.run` advances the files in order.
-/

import Tarjuman.Build.Job
import Tarjuman.Build.Target

namespace Tarjuman

/-- One step of progress with a file. -/
structure FileEvent where
  path : Text
  /-- The position among all files. -/
  index : Nat
  total : Nat
  /-- The file is done and not only started. -/
  done : Bool
  errors : Nat := 0
  warnings : Nat := 0
  cached : Bool := false
  elapsed : Duration := 0
deriving DecidableEq, Repr

/-- A directory whose sources were loaded. -/
structure Folder where
  paths : List Text
  set : FileSet
  /-- Why a file could not be loaded, by its position. -/
  faults : List (Option FileSet.LoadFault)
  options : BuildOptions
  store : Option Store
  /-- How many files are worked on at a time. -/
  workers : Nat
  /-- The span that the jobs belong to. -/
  parent : Nat

namespace Folder

/-- What is done with a file. -/
inductive Work where
  | queued
  /-- A worker has it and has not told of it yet. -/
  | given
  | running (stage : Job.Stage)
  | done (o : Outcome)

namespace Work

/-- The result, if the file is done. -/
def outcome? : Work → Option Outcome
  | done o => some o
  | _ => none

/-- A worker has the file. -/
def isTaken : Work → Bool
  | given | running _ => true
  | _ => false

/-- The file waits for a worker. -/
def isQueued : Work → Bool
  | queued => true
  | _ => false

/-- How many steps there are at most: a file is given to a worker and started, its job takes
its steps, and the result is put in its place. -/
def rank : Work → Nat
  | queued => Job.Stage.waiting.rank + 3
  | given => Job.Stage.waiting.rank + 2
  | running stage => stage.rank + 1
  | done _ => 0

end Work

/-- Where all files stand, what was told of them, and what the workers share. -/
structure State where
  works : List Work
  events : List FileEvent := []
  shared : Shared

variable (f : Folder)

/-- The number of files. -/
def size : Nat := f.paths.length

/-- No file is started. -/
def initial (s : Shared) : State := ⟨List.replicate f.size .queued, [], s⟩

/-- The event that a file is started. -/
def started (i : Nat) : FileEvent := ⟨f.paths.getD i [], i, f.size, false, 0, 0, false, 0⟩

/-- The event that a file is done. -/
def ended (i : Nat) (o : Outcome) : FileEvent :=
  ⟨f.paths.getD i [], i, f.size, true, o.errors, o.warnings, o.cached, 0⟩

/-- The job for a file. -/
def job (file : SourceFile) : Job := ⟨file, f.options, f.store, f.parent⟩

/-- The result of a file that could not be loaded. -/
def unloaded (file : SourceFile) (fault : FileSet.LoadFault) : Outcome :=
  { path := file.path
    bag := Bag.ofList f.options.maxDiagnostics
      [.error .loadFailure (.point file.id 0) ("failed to load file: " ++ fault.message)] }

/-- A worker is free, and the file is the next one. -/
def mayStart (st : State) (i : Nat) : Bool :=
  st.works.countP (·.isTaken) < f.workers && !(st.works.take i).any (·.isQueued)

/-- Start with a file.  With one that could not be loaded all is done but to put the
result in its place. -/
def begin (st : State) (i : Nat) (file : SourceFile) : State :=
  let st := { st with events := st.events ++ [f.started i] }
  match f.faults.getD i none with
  | some fault =>
    { st with
      works := st.works.set i (.running (.finished (f.unloaded file fault)))
      shared := { st.shared with
        tracer := st.shared.tracer.error .file "load" fault.message f.parent } }
  | none => { st with works := st.works.set i (.running .waiting) }

/-- One step with a file; nothing happens to one that is done or has to wait. -/
def advance (st : State) (i : Nat) : State :=
  match st.works[i]?, f.set.files[i]? with
  | some .queued, _ => if f.mayStart st i then { st with works := st.works.set i .given } else st
  | some .given, some file => f.begin st i file
  | some (.running (.finished o)), _ =>
    { st with works := st.works.set i (.done o), events := st.events ++ [f.ended i o] }
  | some (.running stage), some file =>
    let (stage, shared) := (f.job file).step stage st.shared
    { st with works := st.works.set i (.running stage), shared }
  | _, _ => st

/-- Follow a schedule. -/
def follow (st : State) (schedule : List Nat) : State := schedule.foldl f.advance st

/-- One of `n` files after the other. -/
def inOrder (n : Nat) : List Nat :=
  (List.range n).flatMap fun i => List.replicate Work.queued.rank i

/-- The files of a directory in a set, and why some of them could not be loaded. -/
structure Loaded where
  set : FileSet
  faults : List (Option FileSet.LoadFault) := []

/-- Load one more file into a set; one that cannot be loaded is there with an empty content. -/
def loadNext (d : Disk) (set : FileSet) (path : Text) :
    Except FileSet.CallFault (FileSet × Option FileSet.LoadFault) :=
  match set.load d path with
  | (.ok _, set) => .ok (set, none)
  | (.error (.unloaded fault), set) =>
    match set.store path [] .isVirtual with
    | (.ok _, set) => .ok (set, some fault)
    | (.error fault, _) => .error fault
  | (.error fault, _) => .error fault

/-- Load files one after the other into a set. -/
def loadAll (d : Disk) (set : FileSet) : List Text → Except FileSet.CallFault Loaded
  | [] => .ok { set }
  | path :: paths =>
    match loadNext d set path with
    | .error fault => .error fault
    | .ok (set, fault) =>
      match loadAll d set paths with
      | .error fault => .error fault
      | .ok loaded => .ok { loaded with faults := fault :: loaded.faults }

/-- The result of a directory. -/
structure Result where
  set : FileSet
  /-- One result for each file; `none` for a file that was not run. -/
  outcomes : List (Option Outcome)
  events : List FileEvent
  cancelled : Bool

namespace Result

/-- An error was reported on some file. -/
def hasErrors (r : Result) : Bool := r.outcomes.any fun o => (o.map (·.hasErrors)).getD false

/-- All that was reported, sorted, each finding once. -/
def bag (r : Result) : Bag :=
  ((r.outcomes.filterMap id).foldl (fun b o => Bag.merge b o.bag) (Bag.new 0)).sort.dedup

end Result

/-- Why there is no result. -/
inductive Fault where
  /-- The sources could not be listed. -/
  | unlisted (fault : FileFault)
  /-- The run broke off while the sources were loaded. -/
  | brokenOff (fault : FileSet.CallFault)

namespace Fault

/-- The fault in words. -/
def message : Fault → Text
  | unlisted fault => fault.message
  | brokenOff fault => fault.message

/-- The directory is not there. -/
def isMissing : Fault → Bool
  | unlisted fault => fault.cause = .missing
  | brokenOff _ => false

end Fault

/-- Sources that were loaded, for a number of workers. -/
def opened (loaded : Loaded) (paths : List Text) (o : BuildOptions) (store : Option Store)
    (workers : Nat) (parent : Nat) : Folder :=
  ⟨paths, loaded.set, loaded.faults, o, store, max 1 workers, parent⟩

/-- Transpile all sources under a directory with a number of workers that follow a
schedule, which may depend on the number of files.  If the run is cancelled before it
starts, no file is run. -/
def runWith (schedule : Nat → List Nat) (dir : Text) (o : BuildOptions) (store : Option Store)
    (workers : Nat) (parent : Nat) (cancelled : Bool) (s : Shared) :
    Except Fault Result × Shared :=
  match Target.sources s.disk dir with
  | .error fault => (.error (.unlisted fault), s)
  | .ok [] => (.ok ⟨{ base := dir }, [], [], false⟩, s)
  | .ok paths =>
    let (span, tracer) := s.tracer.spanBegin .driver "transpile-dir" parent
    match loadAll s.disk { base := dir } paths with
    | .error fault => (.error (.brokenOff fault), { s with tracer })
    | .ok loaded =>
      let f := opened loaded paths o store workers (TraceSpan.numberOf span)
      let start := f.initial { s with tracer }
      let last := if cancelled then start else f.follow start (schedule f.size)
      (.ok ⟨f.set, last.works.map (·.outcome?), last.events, cancelled⟩,
       { last.shared with tracer := last.shared.tracer.spanEnd span [] })

/-- Transpile all sources under a directory, one file after the other. -/
def run (dir : Text) (o : BuildOptions) (store : Option Store) (workers : Nat) (parent : Nat)
    (cancelled : Bool) (s : Shared) : Except Fault Result × Shared :=
  runWith inOrder dir o store workers parent cancelled s

end Folder
end Tarjuman
