/-
# Transpiling one file

A job looks for a kept result in the memo and then in the store; only if there is
none it transpiles the file, and then it keeps the result in both.

It goes through stages, and each step from one stage to the next is one look-up or
one change of what jobs share.  `Job.run` takes all steps in a row.
-/

import Tarjuman.Build.Memo
import Tarjuman.Build.Store
import Tarjuman.Build.Timer
import Tarjuman.Diagnostic.Bag
import Tarjuman.Source.File
import Tarjuman.Trace.Tracer

namespace Tarjuman

/-- What jobs share. -/
structure Shared where
  disk : Disk := {}
  memo : Option Memo := none
  tracer : Tracer := .silent

/-- The result of one file. -/
structure Outcome where
  path : Text
  fragments : List Text := []
  /-- The fragments joined. -/
  output : Text := []
  bag : Bag
  /-- The phases of the job; `none` if the file was not loaded. -/
  timer : Option Timer := none
  /-- The result was kept from an earlier run. -/
  cached : Bool := false

namespace Outcome

/-- An error was reported. -/
def hasErrors (o : Outcome) : Bool := o.bag.hasErrors

/-- The number of errors. -/
def errors (o : Outcome) : Nat := o.bag.toList.countP (·.severity = .error)

/-- The number of warnings. -/
def warnings (o : Outcome) : Nat := o.bag.toList.countP (·.severity = .warning)

end Outcome

/-- A file to be transpiled. -/
structure Job where
  file : SourceFile
  options : BuildOptions
  store : Option Store := none
  /-- The span that the job belongs to. -/
  parent : Nat := 0

namespace Job

/-- What a job has gathered so far. -/
structure Notes where
  span : Option TraceSpan := none
  timer : Timer := {}
  bag : Bag

/-- Where a job stands. -/
inductive Stage where
  | waiting
  /-- About to ask the memo. -/
  | atMemo (n : Notes)
  /-- About to ask the store. -/
  | atStore (n : Notes)
  /-- The store had a payload, which is now kept in the memo. -/
  | found (n : Notes) (p : Payload)
  /-- Nothing was found. -/
  | atWork (n : Notes)
  /-- A result is to be kept in the memo. -/
  | keeping (n : Notes) (p : Payload)
  /-- A result is to be kept in the store. -/
  | storing (n : Notes) (p : Payload)
  | finished (o : Outcome)

namespace Stage

/-- How many steps there are at most. -/
def rank : Stage → Nat
  | waiting => 6
  | atMemo _ => 5
  | atStore _ => 4
  | atWork _ => 3
  | found .. => 2
  | keeping .. => 2
  | storing .. => 1
  | finished _ => 0

end Stage

variable (j : Job)

/-- The key of the job's result. -/
def key : Digest := j.options.cacheKey j.file.content

/-- Something about a cache that is worth a warning. -/
def cacheWarning (message : Text) : Diagnostic :=
  .warning .cacheFailure (.point j.file.id 0) message

/-- The report on the time that the phases took. -/
def timingReport (t : Timer) : Diagnostic :=
  let at' := Span.point j.file.id 0
  let details := Json.record
    [Json.text "kind" "file", Json.textUnlessEmpty "path" j.file.path,
     Json.field "total_ms" (.number t.total.millis.render), Json.field "phases" t.phasesJson]
  { severity := .info, code := .timings, span := at'
    message := "timings (file): total " ++ t.total.millis.fixed 2 ++ " ms" ++
      Text.when (!j.file.path.isEmpty) (": " ++ j.file.path)
    notes := [⟨at', details.compact⟩] }

/-- A report that finds room in a bag in any case. -/
def addAlways (b : Bag) (d : Diagnostic) : Bag :=
  if b.isFull then b.merge (Bag.ofList 1 [d]) else b.add d

/-- Close the job with its fragments. -/
def close (n : Notes) (fragments : List Text) (cached : Bool) (s : Shared) : Stage × Shared :=
  let bag := if j.options.timings then addAlways n.bag (j.timingReport n.timer) else n.bag
  let span := n.span.map (·.withExtra "cached" (BuildOptions.truth cached))
  (.finished
    { path := j.file.path, fragments, output := Script.render fragments j.options.separator
      bag, timer := some n.timer, cached },
   { s with tracer := s.tracer.spanEnd span (Text.ofNat bag.size ++ " diagnostics") })

/-- A phase that asks the caches, with its answer. -/
def askedCaches (n : Notes) (hit : Bool) : Notes :=
  { n with timer := n.timer.add "cache" 0 (BuildOptions.truth hit) }

/-- Close the job with a payload that was kept. -/
def closeWith (n : Notes) (p : Payload) (s : Shared) : Stage × Shared :=
  let n := askedCaches n true
  j.close { n with bag := n.bag.addAll (p.diagnostics j.file.id) } p.fragments true s

/-- Transpile the file: its fragments and what was reported, up to the limit. -/
def transpiled (tokens : Lexed) : List Text × List Diagnostic :=
  let script := transpile j.file.id (some j.file.content) j.options.style tokens.tokens
  let bag := Bag.ofList j.options.maxDiagnostics script.reports
  (script.fragments,
   ((Bag.ofList j.options.maxDiagnostics tokens.reports).addAll bag.toList).toList)

/-- Begin a pass, end it and say one thing about it. -/
def tracePass (t : Tracer) (parent : Nat) (name what : Text) (n : Nat) : Tracer :=
  let (span, t) := t.spanBegin .pass name parent
  t.spanEnd (span.map (·.withExtra what (Text.ofNat n))) []

/-- Transpile the file and go on to keep the result. -/
def work (n : Notes) (s : Shared) : Stage × Shared :=
  let parent := TraceSpan.numberOf n.span
  let lexed := tokenize j.file.id j.file.content
  let count := lexed.tokens.length
  let tracer := tracePass s.tracer parent "lex" "tokens" count
  let (fragments, reports) := j.transpiled lexed
  let tracer := tracePass tracer parent "transpile" "fragments" fragments.length
  let timer := (n.timer.add "lex" 0 (Text.ofNat count ++ " tokens")).add "transpile" 0 []
  (.keeping { n with timer, bag := n.bag.addAll reports } (.ofResult fragments reports),
   { s with tracer })

/-- One step. -/
def step : Stage → Shared → Stage × Shared
  | .waiting, s =>
    let (span, tracer) := s.tracer.spanBegin .file ("file:" ++ j.file.path) j.parent
    let n : Notes := { span, bag := .new j.options.maxDiagnostics }
    (if s.memo.isSome || j.store.isSome then .atMemo n else .atWork n, { s with tracer })
  | .atMemo n, s =>
    match s.memo with
    | none => (.atStore n, s)
    | some memo =>
      match memo.get j.key with
      | (some p, memo) => j.closeWith n p { s with memo := some memo }
      | (none, memo) => (.atStore n, { s with memo := some memo })
  | .atStore n, s =>
    match j.store with
    | none => (.atWork (askedCaches n false), s)
    | some store =>
      match store.get s.disk j.key with
      | .ok (some p) => (.found n p, s)
      | .ok none => (.atWork (askedCaches n false), s)
      | .error message =>
        let n := askedCaches n false
        (.atWork { n with bag := n.bag.add (j.cacheWarning ("cache read failed: " ++ message)) }, s)
  | .found n p, s =>
    j.closeWith n p { s with memo := s.memo.map (·.put j.key p) }
  | .atWork n, s => j.work n s
  | .keeping n p, s => (.storing n p, { s with memo := s.memo.map (·.put j.key p) })
  | .storing n p, s =>
    match j.store with
    | none => j.close n p.fragments false s
    | some store =>
      match store.put s.disk j.key p with
      | (disk, none) => j.close n p.fragments false { s with disk }
      | (disk, some fault) =>
        let n := { n with
          bag := n.bag.add (j.cacheWarning ("cache write failed: " ++ fault.message)) }
        j.close n p.fragments false
          { s with
            disk
            tracer := s.tracer.error .pass "cache" fault.message (TraceSpan.numberOf n.span) }
  | .finished o, s => (.finished o, s)

/-- Every step leaves fewer steps. -/
theorem rank_step_lt {st : Stage} (s : Shared) (h : st.rank ≠ 0) :
    (j.step st s).1.rank < st.rank := by
  cases st <;> simp only [step] <;> (repeat' split) <;>
    simp_all [Stage.rank, closeWith, close, work]

/-- Take all steps from a stage. -/
def runFrom (st : Stage) (s : Shared) : Outcome × Shared :=
  match _h : st with
  | .finished o => (o, s)
  | .waiting | .atMemo _ | .atStore _ | .found .. | .atWork _ | .keeping .. | .storing .. =>
    runFrom (j.step st s).1 (j.step st s).2
termination_by st.rank
decreasing_by all_goals (subst _h; exact j.rank_step_lt s (by simp [Stage.rank]))

/-- Take all steps. -/
def run (s : Shared) : Outcome × Shared := j.runFrom .waiting s

end Job

/-- Transpile a content that comes from no file; the set holds it as its only file. -/
def transpileSource (name content : Text) (o : BuildOptions) (store : Option Store) (s : Shared) :
    FileSet × Outcome × Shared :=
  let file := ({} : FileSet).fresh name content .isVirtual
  (({} : FileSet).addVirtual name content, ({ file, options := o, store : Job }).run s)

/-- Load a file and transpile it. -/
def transpileFile (path : Text) (o : BuildOptions) (store : Option Store) (parent : Nat)
    (s : Shared) : Except FileSet.CallFault (FileSet × Outcome × Shared) :=
  match ({} : FileSet).load s.disk path with
  | (.error fault, _) => .error fault
  | (.ok file, set) => .ok (set, ({ file, options := o, store, parent : Job }).run s)

/-- A file with its tokens and what the lexer reported, up to a limit. -/
structure TokenizedFile where
  set : FileSet
  file : SourceFile
  tokens : List Token
  bag : Bag

/-- Load a file and split it into tokens. -/
def tokenizeFile (d : Disk) (path : Text) (maxDiagnostics : Int) :
    Except FileSet.CallFault TokenizedFile :=
  match ({} : FileSet).load d path with
  | (.error fault, _) => .error fault
  | (.ok file, set) =>
    let lexed := tokenize file.id file.content
    .ok ⟨set, file, lexed.tokens, .ofList maxDiagnostics lexed.reports⟩

end Tarjuman
