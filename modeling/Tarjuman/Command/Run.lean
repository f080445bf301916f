/-
# What the commands do

`Command.execute` runs a list of arguments on a disk.  It finds the command, reads its
options, opens the trace, and lets the command do its work; what is due at the end is
done in any case.
-/

import Tarjuman.Build.Folder
import Tarjuman.Command.Session
import Tarjuman.Project.Scaffold
import Tarjuman.Token.Listing

namespace Tarjuman
namespace Command

open Arguments (Parsed)

variable (w : Setting) (p : Parsed)

/-- The only argument, or `.` without one. -/
def target : Text := p.args.headD "."

/-- Print diagnostics as output. -/
def printReport (g : Globals) (format : ReportFormat) (fs : FileSet) (bag : Bag) : Run Unit := do
  Run.print (format.render (g.colour.resolve w.outIsTerminal) (← get).disk.cwd fs bag)

/-- Print diagnostics as messages. -/
def warnReport (g : Globals) (format : ReportFormat) (fs : FileSet) (bag : Bag) : Run Unit := do
  Run.warn (format.render (g.colour.resolve w.errIsTerminal) (← get).disk.cwd fs bag)

/-- `lugha tokenize`: print the tokens of a file. -/
def runTokenize : Run Unit := do
  let format := p.text tokenize "format"
  if format ≠ "pretty" ∧ format ≠ "json" then
    Run.fail ("unknown format: " ++ format)
  let g ← Globals.read tokenize p
  match tokenizeFile (← get).disk (target p) g.maxDiagnostics with
  | .error fault => Run.fail ("tokenization failed: " ++ fault.report (target p))
  | .ok t =>
    warnReport w g .pretty t.set t.bag
    if format = "json" then Run.print (TokenListing.document (some t.set) t.tokens)
    else Run.print ((TokenListing.lines? t.set t.tokens).getD [])
    Run.failIf t.bag.hasErrors

/-- The options of a build with those that shape scripts. -/
def shapedOptions (c : Command) (o : BuildOptions) : Run BuildOptions := do
  let sep := p.text c "sep"
  match separatorOf? sep with
  | none => Run.fail ("invalid --sep " ++ Text.quoted sep ++ ": " ++ badSeparator)
  | some separator =>
    return { o with
      separator
      naming := if p.truth c "latinize" then some .latin else o.naming
      banner := !p.truth c "no-banner"
      prelude := p.truth c "prelude"
      strict := !p.truth c "loose-blocks" }

/-- Transpile a file within the session. -/
def transpileNamed (path : Text) (o : BuildOptions) : Run (FileSet × Outcome) := do
  let s ← get
  match transpileFile path o none (TraceSpan.numberOf s.span) s.shared with
  | .error fault => Run.fail (fault.report path)
  | .ok (fs, outcome, shared) =>
    set (s.withShared shared)
    return (fs, outcome)

/-- The table of phases of a result. -/
def timingsOf (o : Outcome) : Text :=
  match o.timer with
  | some t => t.summary
  | none => []

/-- `lugha transpile`: print or write the script of a file. -/
def runTranspile : Run Unit := do
  let g ← Globals.read transpile p
  let output := p.text transpile "output"
  let format ← ReportFormat.read (p.text transpile "diag-format")
  let options ← shapedOptions p transpile g.buildOptions
  let (fs, o) ← transpileNamed (target p) options
  warnReport w g format fs o.bag
  if output.isEmpty then Run.print (o.output ++ "\n")
  else
    Run.onDisk fun d => Target.write d output o.output
    if !g.quiet then Run.warn ("wrote " ++ output ++ "\n")
  if g.timings ∧ format ≠ .json then Run.warn (timingsOf o)
  Run.failIf o.hasErrors

/-- Transpile a directory within the session. -/
def transpileFolder (dir : Text) (o : BuildOptions) (store : Option Store) (jobs : Int) :
    Run Folder.Result := do
  let s ← get
  let (result, shared) :=
    Folder.run dir o store jobs.toNat (TraceSpan.numberOf s.span) false s.shared
  set (s.withShared shared)
  match result with
  | .ok r => return r
  | .error fault => Run.fail fault.message

/-- `lugha diag`: print what is to be said about a file or a directory. -/
def runDiag : Run Unit := do
  let g ← Globals.read diag p
  let format ← ReportFormat.read (p.text diag "format")
  let o := g.buildOptions
  let o := if p.truth diag "latinize" then { o with naming := some .latin } else o
  match (← get).disk.stat (target p) with
  | .error fault =>
    Run.fail ("failed to stat " ++ Text.quoted (target p) ++ ": " ++ fault.message)
  | .ok .directory =>
    let r ← transpileFolder (target p) o none (p.number diag "jobs")
    printReport w g format r.set r.bag
    if !g.quiet ∧ format ≠ .json then
      Run.warn ("checked " ++ Text.ofNat r.outcomes.length ++ " files\n")
    Run.failIf r.hasErrors
  | .ok _ =>
    let (fs, outcome) ← transpileNamed (target p) o
    printReport w g format fs outcome.bag
    Run.failIf outcome.hasErrors

/-- The directory of the program's store. -/
def storeDir : Except Text Text :=
  if !w.cacheHome.isEmpty then .ok (Path.join [w.cacheHome, "lugha"])
  else if w.home.isEmpty then .error "$HOME is not defined"
  else .ok (Path.join [w.home, ".cache", "lugha"])

/-- Open the program's store. -/
def openStore (d : Disk) : Disk × Except Text Store :=
  match storeDir w with
  | .error message => (d, .error message)
  | .ok dir => Store.openAt d dir

/-- The options of a build that a manifest gives. -/
def manifestOptions (m : Manifest) (o : BuildOptions) : BuildOptions :=
  { o with
    separator := m.separator, banner := m.banner
    naming := if m.latinize then some .latin else o.naming }

/-- The manifest that a build starts from. -/
def findManifest : Run Manifest := do
  let d := (← get).disk
  match Manifest.locate d (target p) with
  | .error fault => Run.fail fault.message
  | .ok none =>
    Run.fail ("no lugha.toml found in " ++ target p ++ " or its parents (run `lugha init`)")
  | .ok (some path) =>
    match Manifest.load d path with
    | .ok m => return m
    | .error fault => Run.fail (fault.message path)

/-- The store of a build, if one is wanted and can be opened. -/
def buildStore : Run (Option Store) := do
  if p.truth build "no-cache" then return none
  let (disk, store) := openStore w (← get).disk
  modify fun s => { s with disk }
  match store with
  | .ok store => return some store
  | .error message =>
    Run.warn ("lugha: cache disabled: " ++ message ++ "\n")
    return none

/-- Write the scripts of a build; a file with errors has none.  The numbers of written
and of failed files. -/
def writeScripts (m : Manifest) (quiet : Bool) : List Outcome → Run (Nat × Nat)
  | [] => return (0, 0)
  | o :: more => do
    if o.hasErrors then
      let (written, failed) ← writeScripts m quiet more
      return (written, failed + 1)
    else
      match Target.path o.path m.srcDir m.outDir with
      | .error fault => Run.fail fault.message
      | .ok path =>
        Run.onDisk fun d => Target.write d path o.output
        if !quiet then Run.warn ("wrote " ++ shownFrom m.root path ++ "\n")
        let (written, failed) ← writeScripts m quiet more
        return (written + 1, failed)

/-- The phases of a file under its name. -/
def namedTimings (m : Manifest) (o : Outcome) : Text :=
  match o.timer with
  | some t => shownFrom m.root o.path ++ ":\n" ++ t.summary
  | none => []

/-- `lugha build`: write the scripts of a project. -/
def runBuild : Run Unit := do
  let g ← Globals.read build p
  let ui := p.text build "ui"
  if (Switch.ofName? ui).isNone then Run.fail (Switch.badName "ui" ui)
  let format ← ReportFormat.read (p.text build "diag-format")
  let m ← findManifest p
  let o := manifestOptions m g.buildOptions
  let store ← buildStore w p
  match Target.sources (← get).disk m.srcDir with
  | .error fault => Run.fail ("list sources: " ++ fault.message)
  | .ok _ =>
    let r ← transpileFolder m.srcDir o store (p.number build "jobs")
    let outcomes := r.outcomes.filterMap id
    let (written, failed) ← writeScripts m g.quiet outcomes
    warnReport w g format r.set r.bag
    if g.timings then Run.warn (outcomes.flatMap (namedTimings m))
    if !g.quiet then
      Run.warn (m.name ++ ": " ++ Text.ofNat written ++ " written, " ++ Text.ofNat failed ++
        " failed in " ++ Duration.render 0 ++ "\n")
    Run.failIf (0 < failed)

/-- Make the directory of a new project, unless it is there. -/
def makeTarget (dir : Text) : Run Unit := do
  let d := (← get).disk
  match d.stat dir with
  | .ok .directory => pure ()
  | .ok _ => Run.fail (Text.quoted dir ++ " is not a directory")
  | .error fault =>
    if fault.cause ≠ .missing then Run.fail fault.message
    Run.onDisk fun d =>
      let (d, fault) := d.makeDirectories dir
      (d, fault.map fun f =>
        "failed to create directory " ++ Text.quoted dir ++ ": " ++ f.message)

/-- `lugha init`: make a project. -/
def runInit : Run Unit := do
  let cwd := (← get).disk.cwd
  let dir := Path.absolute cwd (target p)
  makeTarget dir
  let (result, disk) := Scaffold.run (← get).disk dir []
  modify fun s => { s with disk }
  match result with
  | .error (.alreadyThere path) =>
    Run.fail ("project already initialized: " ++ (Scaffold.Fault.alreadyThere path).message)
  | .error fault => Run.fail fault.message
  | .ok m =>
    let shown := (Path.relative? cwd dir).getD dir
    Run.print ("Initialized lugha project " ++ Text.quoted m.name ++ " in " ++ shown ++ "\n  - " ++
      Manifest.fileName ++ "\n  - " ++ Path.join [m.src, Scaffold.mainName] ++ "\n")

/-- `lugha version`: tell the release. -/
def runVersion : Run Unit := do
  let full := p.truth version "full"
  let g ← Globals.read version p
  let wish : Release.Wish :=
    ⟨p.truth version "hash" || full, p.truth version "message" || full,
     p.truth version "date" || full⟩
  let format := p.text version "format"
  if Text.lower format = "json" then Run.print (w.release.document wish)
  else if Text.lower format = "pretty" then
    Run.print (w.release.lines wish (g.colour.resolve w.outIsTerminal))
  else
    Run.fail ("unsupported format " ++ Text.quoted format ++ " (must be pretty or json)")

/-- `lugha cache clean`: drop all that the store keeps. -/
def runCacheClean : Run Unit := do
  let (disk, opened) := openStore w (← get).disk
  modify fun s => { s with disk }
  match opened with
  | .error message => Run.fail message
  | .ok store =>
    let (disk, fault) := store.clear disk w.stamp
    modify fun s => { s with disk }
    match fault with
    | some f =>
      if f.cause ≠ .missing then Run.fail ("clean " ++ store.dir ++ ": " ++ f.message)
    | none => pure ()
    Run.print ("cleaned " ++ store.dir ++ "\n")

/-- One command in the list of commands. -/
def helpLine (c : Command) : Text := "  " ++ c.path ++ "\n"

/-- One option in the list of options. -/
def optionLine (o : OptionSpec) : Text := "  " ++ Arguments.shownOption o ++ "\n"

/-- What can be done with a command. -/
def helpText (c : Command) : Text :=
  "Usage: " ++ c.path ++ "\n" ++
    Text.when (!c.children.isEmpty) ("\nCommands:\n" ++ c.children.flatMap helpLine) ++
    "\nOptions:\n" ++ (c.accepted true).flatMap optionLine

/-- Do the work of a command. -/
def work (c : Command) : Run Unit :=
  match c with
  | tokenize => runTokenize w p
  | transpile => runTranspile w p
  | diag => runDiag w p
  | build => runBuild w p
  | init => runInit p
  | live => Run.fail "live needs an interactive terminal"
  | version => runVersion w p
  | cacheClean => runCacheClean w
  | root | cache | completion | help => Run.print (helpText root)

/-- The level of the trace: a file alone asks for phases. -/
def traceLevel (c : Command) : Run TraceLevel := do
  let name := p.text c "trace-level"
  match TraceLevel.ofName? name with
  | none => Run.fail (TraceLevel.badName name)
  | some level =>
    let bare := !(p.text c "trace").isEmpty && !p.has "trace-level"
    return if level = .off && bare then .phase else level

/-- The format of the trace; unless it is told, the name of the file tells it. -/
def traceFormat (c : Command) : Run TraceFormat := do
  let name := p.text c "trace-format"
  match TraceFormat.ofName? name with
  | none => Run.fail (TraceFormat.badName name)
  | some .auto =>
    let ext := Path.extension (p.text c "trace")
    return if ext = ".ndjson" ∨ ext = ".jsonl" then .json else .text
  | some format => return format

/-- Open the trace and begin the span of the command. -/
def openTrace (c : Command) : Run Unit := do
  let level ← traceLevel p c
  let format ← traceFormat p c
  if level = .off then return
  let path := p.text c "trace"
  let file := if path.isEmpty ∨ path = "-" then none else some path
  if let some path := file then
    Run.onDisk fun d =>
      match d.write path [] with
      | .ok d => (d, none)
      | .error fault =>
        (d, some ("failed to create tracer: failed to open trace output: " ++ fault.message))
  let (span, tracer) := ({ level, format : Tracer }).spanBegin .driver c.path 0
  modify fun s => { s with tracer, span, traceFile := file }

/-- Make the file of a profile, if one is asked for. -/
def openProfile (what path : Text) : Run Unit := do
  if !path.isEmpty then
    Run.onDisk fun d =>
      match d.write path [] with
      | .ok d => (d, none)
      | .error fault => (d, some (what ++ ": " ++ fault.message))

/-- Make the files of all profiles; the last one is due at the end. -/
def openProfiles (c : Command) : Run Unit := do
  openProfile "cpu profile" (p.text c "cpu-profile")
  openProfile "runtime trace" (p.text c "runtime-trace")
  let heap := p.text c "mem-profile"
  modify fun s => { s with heapFile := if heap.isEmpty then none else some heap }

/-- Fail with what is wrong with the arguments. -/
def refuse {α : Type} (f : Arguments.Fault) : Run α := Run.fail f.message

/-- Run arguments. -/
def perform (args : List Text) : Run Unit := do
  match Arguments.find args with
  | .error fault => refuse fault
  | .ok (c, rest) =>
    match Arguments.parse (c.accepted (!w.release.version.isEmpty)) {} rest with
    | .error fault => refuse fault
    | .ok p =>
      if p.truth c "help" then Run.print (helpText c)
      else if c = root ∧ p.truth c "version" then
        Run.print ("lugha version " ++ w.release.version ++ "\n")
      else if !c.isRunnable then Run.print (helpText c)
      else
        match Arguments.arityFault? c p.args with
        | some fault => refuse fault
        | none =>
          if c = help then Run.print (helpText root)
          else
            openTrace p c
            openProfiles p c
            work w p c

/-- What is left of a command. -/
structure Ending where
  disk : Disk
  out : Text
  err : Text
  /-- The trace that went to no file. -/
  trace : Text
  failure : Option Failure

/-- Run arguments on a disk. -/
def execute (w : Setting) (d : Disk) (args : List Text) : Ending :=
  let (result, s) := StateT.run (ExceptT.run (perform w args)) { disk := d }
  let s := s.close
  { disk := s.disk, out := s.out, err := s.err
    trace := Text.when s.traceFile.isNone s.tracer.output
    failure :=
      match result with
      | .ok () => none
      | .error failure => some failure }

end Command
end Tarjuman
