/-
# What one run does

A run of a job ends in one of three ways (`Job.Ran`): its result was in the memo, or
it was in the store and is now in the memo too, or it was in neither, is made now and
kept in both.  Each says what the outcome shows and what the caches are afterwards.
`Job.progress_step` follows a run stage by stage, and `Job.run_ran` takes it to the
end.

What is made depends on the job alone: its fragments and, up to the limit, its
findings, those of the lexer before those of the transpiler (`Job.transpiled_eq`).
If the caches are honest about a job, that is what its run shows, wherever it was
found (`Job.shows_run`).
-/

import Tarjuman.Build.Job
import Tarjuman.Proofs.PayloadRoundTrip
import Tarjuman.Proofs.ReportOrigins

namespace Tarjuman
namespace Job

variable (j : Job)

/-- The job of a content that comes from no file. -/
def ofSource (name content : Text) (o : BuildOptions) (store : Option Store) : Job :=
  { file := ({} : FileSet).fresh name content .isVirtual, options := o, store }

theorem transpileSource_eq (name content : Text) (o : BuildOptions) (store : Option Store)
    (s : Shared) :
    (transpileSource name content o store s).2 = (ofSource name content o store).run s :=
  rfl

/-- The script of the file. -/
def script : Script :=
  transpile j.file.id (some j.file.content) j.options.style
    (tokenize j.file.id j.file.content).tokens

/-- Everything that is found in the file, in the order in which it is reported. -/
def findings : List Diagnostic := (tokenize j.file.id j.file.content).reports ++ j.script.reports

/-- The limit of the job's bags. -/
def limit : Nat := Bag.capacity j.options.maxDiagnostics

/-- What a run that finds nothing in the caches keeps there. -/
def payload : Payload := .ofResult j.script.fragments (j.findings.take j.limit)

/-- Three bags with one limit hold what one bag would. -/
theorem transpiled_eq :
    j.transpiled (tokenize j.file.id j.file.content) =
      (j.script.fragments, j.findings.take j.limit) := by
  have h := Bag.take_append_take j.limit (tokenize j.file.id j.file.content).reports
    j.script.reports []
  rw [List.append_nil, List.append_nil] at h
  have hbag : (Bag.ofList j.options.maxDiagnostics
      (tokenize j.file.id j.file.content).reports).addAll
      (Bag.ofList j.options.maxDiagnostics j.script.reports).toList =
      Bag.ofList j.options.maxDiagnostics
        ((tokenize j.file.id j.file.content).reports ++ j.script.reports.take j.limit) := by
    rw [Bag.toList_ofList]
    exact Bag.addAll_append _ _ _
  exact congrArg (Prod.mk _) ((congrArg Bag.toList hbag).trans ((Bag.toList_ofList _ _).trans h))

/-- The findings of a file lie in that file. -/
theorem findings_within : ∀ d ∈ j.findings, d.Within (·.file = j.file.id) :=
  List.forall_mem_append.2 ⟨tokenize_within _ _, transpile_tokenize_within _ _ _⟩

/-- The findings of a file are the lexer's and the transpiler's. -/
theorem findings_origin : ∀ d ∈ j.findings, d.origin = .lexer ∨ d.origin = .transpiler :=
  fun d hd => (List.mem_append.1 hd).imp (tokenize_origin _ _ d) (transpile_origin _ _ _ _ d)

variable {j} in
/-- So they are neither about caches nor about timings. -/
theorem code_ne_of_mem_findings {d : Diagnostic} (h : d ∈ j.findings) {code : Code}
    (hcode : ¬ (code.origin = .lexer ∨ code.origin = .transpiler)) : d.code ≠ code := by
  rintro rfl
  exact hcode (j.findings_origin d h)

theorem diagnostics_payload : j.payload.diagnostics j.file.id = j.findings.take j.limit :=
  Payload.diagnostics_ofResult_of_within _ fun d hd =>
    j.findings_within d (List.mem_of_mem_take hd)

/-- What is said when the store cannot tell whether it has the result. -/
def readWarning (s : Shared) : List Diagnostic :=
  match j.store with
  | none => []
  | some store =>
    match store.get s.disk j.key with
    | .ok _ => []
    | .error message => [j.cacheWarning ("cache read failed: " ++ message)]

/-- What is said when the result cannot be kept in the store. -/
def writeWarning (s : Shared) : List Diagnostic :=
  match j.store with
  | none => []
  | some store =>
    match (store.put s.disk j.key j.payload).2 with
    | none => []
    | some fault => [j.cacheWarning ("cache write failed: " ++ fault.message)]

/-- The disk with the result in the store. -/
def diskAfter (s : Shared) : Disk :=
  match j.store with
  | none => s.disk
  | some store => (store.put s.disk j.key j.payload).1

/-- The bag of an outcome: with the report on timings if there is one. -/
def closingBag (t : Timer) (b : Bag) : Bag :=
  if j.options.timings then addAlways b (j.timingReport t) else b

/-- The outcome shows these fragments and this bag. -/
structure Shows (fragments : List Text) (bag : Bag) (o : Outcome) : Prop where
  path_eq : o.path = j.file.path
  fragments_eq : o.fragments = fragments
  output_eq : o.output = Script.render fragments j.options.separator
  bag_eq : ∃ t, o.bag = j.closingBag t bag

/-- An empty bag of the job. -/
def freshBag : Bag := .new j.options.maxDiagnostics

/-- The memo does not have the result. -/
def MissesMemo (s : Shared) : Prop := ∀ m ∈ s.memo, m.find? j.key = none

/-- The memo after it was asked. -/
def memoAsked (s : Shared) : Option Memo := s.memo.map fun m => (m.get j.key).2

/-- The ways in which a run that starts with `s` can end. -/
inductive Ran (s : Shared) (o : Outcome) (s' : Shared) : Prop where
  | fromMemo {m : Memo} {p : Payload} (has : s.memo = some m) (found : m.find? j.key = some p)
      (shows : j.Shows p.fragments (j.freshBag.addAll (p.diagnostics j.file.id)) o)
      (cached : o.cached = true) (memo : s'.memo = j.memoAsked s) (disk : s'.disk = s.disk)
  | fromStore {st : Store} {p : Payload} (missed : j.MissesMemo s) (has : j.store = some st)
      (found : st.get s.disk j.key = .ok (some p))
      (shows : j.Shows p.fragments (j.freshBag.addAll (p.diagnostics j.file.id)) o)
      (cached : o.cached = true) (memo : s'.memo = (j.memoAsked s).map (·.put j.key p))
      (disk : s'.disk = s.disk)
  | made (missed : j.MissesMemo s)
      (unstored : ∀ st ∈ j.store, ∀ p, st.get s.disk j.key ≠ .ok (some p))
      (shows : j.Shows j.script.fragments
        (((j.freshBag.addAll (j.readWarning s)).addAll (j.findings.take j.limit)).addAll
          (j.writeWarning s)) o)
      (cached : o.cached = false) (memo : s'.memo = (j.memoAsked s).map (·.put j.key j.payload))
      (disk : s'.disk = j.diskAfter s)

/-- What holds on the way, at each stage of a run that starts with `s`. -/
inductive Progress (s : Shared) : Stage → Shared → Prop where
  | waiting {s₁ : Shared} (memo : s₁.memo = s.memo) (disk : s₁.disk = s.disk) :
      Progress s .waiting s₁
  | atMemo {s₁ : Shared} {n : Notes} (bag : n.bag = j.freshBag) (memo : s₁.memo = s.memo)
      (disk : s₁.disk = s.disk) : Progress s (.atMemo n) s₁
  | atStore {s₁ : Shared} {n : Notes} (bag : n.bag = j.freshBag) (missed : j.MissesMemo s)
      (memo : s₁.memo = j.memoAsked s) (disk : s₁.disk = s.disk) : Progress s (.atStore n) s₁
  | found {s₁ : Shared} {n : Notes} {st : Store} {p : Payload} (bag : n.bag = j.freshBag)
      (missed : j.MissesMemo s) (has : j.store = some st)
      (found : st.get s.disk j.key = .ok (some p)) (memo : s₁.memo = j.memoAsked s)
      (disk : s₁.disk = s.disk) : Progress s (.found n p) s₁
  | atWork {s₁ : Shared} {n : Notes} (bag : n.bag = j.freshBag.addAll (j.readWarning s))
      (missed : j.MissesMemo s)
      (unstored : ∀ st ∈ j.store, ∀ p, st.get s.disk j.key ≠ .ok (some p))
      (memo : s₁.memo = j.memoAsked s) (disk : s₁.disk = s.disk) : Progress s (.atWork n) s₁
  | keeping {s₁ : Shared} {n : Notes}
      (bag : n.bag = (j.freshBag.addAll (j.readWarning s)).addAll (j.findings.take j.limit))
      (missed : j.MissesMemo s)
      (unstored : ∀ st ∈ j.store, ∀ p, st.get s.disk j.key ≠ .ok (some p))
      (memo : s₁.memo = j.memoAsked s) (disk : s₁.disk = s.disk) :
      Progress s (.keeping n j.payload) s₁
  | storing {s₁ : Shared} {n : Notes}
      (bag : n.bag = (j.freshBag.addAll (j.readWarning s)).addAll (j.findings.take j.limit))
      (missed : j.MissesMemo s)
      (unstored : ∀ st ∈ j.store, ∀ p, st.get s.disk j.key ≠ .ok (some p))
      (memo : s₁.memo = (j.memoAsked s).map (·.put j.key j.payload)) (disk : s₁.disk = s.disk) :
      Progress s (.storing n j.payload) s₁
  | finished {s₁ : Shared} {o : Outcome} (ran : j.Ran s o s₁) : Progress s (.finished o) s₁

variable {j}

/-- Closing a job shows its fragments and its bag. -/
theorem shows_close (n : Notes) (fragments : List Text) (cached : Bool) (s : Shared) :
    ∃ o s', j.close n fragments cached s = (.finished o, s') ∧ j.Shows fragments n.bag o ∧
      o.cached = cached ∧ s'.memo = s.memo ∧ s'.disk = s.disk :=
  ⟨_, _, rfl, ⟨rfl, rfl, rfl, n.timer, rfl⟩, rfl, rfl, rfl⟩

theorem shows_closeWith (n : Notes) (p : Payload) (s : Shared) :
    ∃ o s', j.closeWith n p s = (.finished o, s') ∧
      j.Shows p.fragments (n.bag.addAll (p.diagnostics j.file.id)) o ∧
      o.cached = true ∧ s'.memo = s.memo ∧ s'.disk = s.disk :=
  shows_close _ p.fragments true s

/-- A job whose result was made is closed with what its store had to say. -/
theorem progress_close {s s₁ : Shared} {n : Notes} (missed : j.MissesMemo s)
    (unstored : ∀ st ∈ j.store, ∀ p, st.get s.disk j.key ≠ .ok (some p))
    (bag : n.bag = ((j.freshBag.addAll (j.readWarning s)).addAll (j.findings.take j.limit)).addAll
      (j.writeWarning s))
    (memo : s₁.memo = (j.memoAsked s).map (·.put j.key j.payload))
    (disk : s₁.disk = j.diskAfter s) :
    j.Progress s (j.close n j.payload.fragments false s₁).1
      (j.close n j.payload.fragments false s₁).2 := by
  obtain ⟨o, s', hclose, hshows, hcached, hmemo, hdisk⟩ :=
    shows_close (j := j) n j.payload.fragments false s₁
  rw [hclose]
  exact .finished (.made missed unstored (bag ▸ hshows) hcached (hmemo.trans memo)
    (hdisk.trans disk))

/-! ### One lemma for each stage that branches -/

section Stages

variable {s s₁ : Shared} {n : Notes}

/-- Without a memo there is nothing to find in it. -/
theorem missesMemo_of_none (h : s.memo = none) : j.MissesMemo s := by
  rw [MissesMemo, h]
  exact fun m hm => by cases hm

theorem memoAsked_of_none (h : s.memo = none) : j.memoAsked s = none := by
  rw [memoAsked, h]
  rfl

/-- A job with no caches goes to work at once. -/
theorem progress_waiting (memo : s₁.memo = s.memo) (disk : s₁.disk = s.disk) :
    j.Progress s (j.step .waiting s₁).1 (j.step .waiting s₁).2 := by
  rw [step]
  dsimp only
  split
  · exact .atMemo rfl memo disk
  · rename_i hnone
    simp only [Bool.or_eq_true, not_or, Bool.not_eq_true, Option.isSome_eq_false_iff,
      Option.isNone_iff_eq_none] at hnone
    obtain ⟨hmemo, hstore⟩ := hnone
    rw [memo] at hmemo
    refine .atWork ?_ (missesMemo_of_none hmemo) ?_ ?_ disk
    · rw [readWarning, hstore]
      rfl
    · rw [hstore]
      exact fun st hst => by cases hst
    · exact memo.trans (hmemo.trans (memoAsked_of_none hmemo).symm)

/-- The memo has the result, and the job is closed with it, or the store is asked next. -/
theorem progress_atMemo (bag : n.bag = j.freshBag) (memo : s₁.memo = s.memo)
    (disk : s₁.disk = s.disk) :
    j.Progress s (j.step (.atMemo n) s₁).1 (j.step (.atMemo n) s₁).2 := by
  rw [step]
  split
  · rename_i hmemo
    rw [memo] at hmemo
    exact .atStore bag (missesMemo_of_none hmemo)
      (memo.trans (hmemo.trans (memoAsked_of_none hmemo).symm)) disk
  · rename_i m hmemo
    rw [memo] at hmemo
    have hasked : j.memoAsked s = some (m.get j.key).2 := by
      rw [memoAsked, hmemo]
      rfl
    split
    · rename_i p m' hget
      have hfound : m.find? j.key = some p := congrArg Prod.fst hget
      obtain rfl : (m.get j.key).2 = m' := congrArg Prod.snd hget
      obtain ⟨o, s', hclose, hshows, hcached, hmemo', hdisk'⟩ :=
        shows_closeWith (j := j) n p { s₁ with memo := some (m.get j.key).2 }
      rw [hclose]
      exact .finished (.fromMemo hmemo hfound (bag ▸ hshows) hcached (hmemo'.trans hasked.symm)
        (hdisk'.trans disk))
    · rename_i m' hget
      have hfound : m.find? j.key = none := congrArg Prod.fst hget
      obtain rfl : (m.get j.key).2 = m' := congrArg Prod.snd hget
      refine .atStore bag ?_ hasked.symm disk
      rw [MissesMemo, hmemo]
      rintro _ ⟨⟩
      exact hfound

/-- The store has the result, or it is made now, with a warning if the store could not tell. -/
theorem progress_atStore (bag : n.bag = j.freshBag) (missed : j.MissesMemo s)
    (memo : s₁.memo = j.memoAsked s) (disk : s₁.disk = s.disk) :
    j.Progress s (j.step (.atStore n) s₁).1 (j.step (.atStore n) s₁).2 := by
  rw [step]
  split
  · rename_i hstore
    refine .atWork ?_ missed ?_ memo disk
    · rw [readWarning, hstore]
      exact bag
    · rw [hstore]
      exact fun st hst => by cases hst
  · rename_i st hstore
    have hunstored (hget : ∀ p, st.get s.disk j.key ≠ .ok (some p)) :
        ∀ st ∈ j.store, ∀ p, st.get s.disk j.key ≠ .ok (some p) := by
      rw [hstore]
      rintro _ ⟨⟩
      exact hget
    rw [disk]
    split
    · rename_i p hget
      exact .found bag missed hstore hget memo disk
    · rename_i hget
      refine .atWork ?_ missed (hunstored fun p => by rw [hget]; simp) memo disk
      simp only [readWarning, hstore, hget]
      exact bag
    · rename_i message hget
      refine .atWork ?_ missed (hunstored fun p => by rw [hget]; simp) memo disk
      simp only [readWarning, hstore, hget]
      exact congrArg (fun b => Bag.add b _) bag

/-- The result goes into the store if there is one, and the job is closed. -/
theorem progress_storing
    (bag : n.bag = (j.freshBag.addAll (j.readWarning s)).addAll (j.findings.take j.limit))
    (missed : j.MissesMemo s)
    (unstored : ∀ st ∈ j.store, ∀ p, st.get s.disk j.key ≠ .ok (some p))
    (memo : s₁.memo = (j.memoAsked s).map (·.put j.key j.payload)) (disk : s₁.disk = s.disk) :
    j.Progress s (j.step (.storing n j.payload) s₁).1 (j.step (.storing n j.payload) s₁).2 := by
  rw [step]
  split
  · rename_i hstore
    refine progress_close missed unstored ?_ memo ?_
    · rw [writeWarning, hstore]
      exact bag
    · rw [diskAfter, hstore]
      exact disk
  · rename_i st hstore
    rw [disk]
    split
    · rename_i disk' hput
      refine progress_close missed unstored ?_ memo ?_
      · simp only [writeWarning, hstore, hput]
        exact bag
      · simp only [diskAfter, hstore, hput]
    · rename_i disk' fault hput
      refine progress_close missed unstored ?_ memo ?_
      · simp only [writeWarning, hstore, hput]
        exact congrArg (fun b => Bag.add b _) bag
      · simp only [diskAfter, hstore, hput]

end Stages

/-- **Each step goes on as the run should.** -/
theorem progress_step {s s₁ : Shared} {st : Stage} (h : j.Progress s st s₁) :
    j.Progress s (j.step st s₁).1 (j.step st s₁).2 := by
  cases h with
  | waiting memo disk => exact progress_waiting memo disk
  | atMemo bag memo disk => exact progress_atMemo bag memo disk
  | atStore bag missed memo disk => exact progress_atStore bag missed memo disk
  | found bag missed has found memo disk =>
    rename_i n st p
    obtain ⟨o, s', hclose, hshows, hcached, hmemo', hdisk'⟩ :=
      shows_closeWith (j := j) n p { s₁ with memo := s₁.memo.map (·.put j.key p) }
    rw [step, hclose]
    refine .finished (.fromStore missed has found (bag ▸ hshows) hcached ?_ (hdisk'.trans disk))
    rw [hmemo', memo]
  | atWork bag missed unstored memo disk =>
    rw [step, work, transpiled_eq]
    exact .keeping (bag ▸ rfl) missed unstored memo disk
  | keeping bag missed unstored memo disk =>
    rw [step]
    exact .storing bag missed unstored (by rw [memo]) disk
  | storing bag missed unstored memo disk =>
    exact progress_storing bag missed unstored memo disk
  | finished ran => exact .finished ran

theorem ran_of_progress {s s₁ : Shared} {st : Stage} (h : j.Progress s st s₁) :
    j.Ran s (j.runFrom st s₁).1 (j.runFrom st s₁).2 := by
  fun_induction runFrom j st s₁ with
  | case1 s₁ o =>
    cases h with
    | finished ran => exact ran
  | case2 s₁ ih => exact ih (progress_step h)
  | case3 s₁ n ih => exact ih (progress_step h)
  | case4 s₁ n ih => exact ih (progress_step h)
  | case5 s₁ n p ih => exact ih (progress_step h)
  | case6 s₁ n ih => exact ih (progress_step h)
  | case7 s₁ n p ih => exact ih (progress_step h)
  | case8 s₁ n p ih => exact ih (progress_step h)

/-- **A run ends in one of three ways.** -/
theorem run_ran (s : Shared) : j.Ran s (j.run s).1 (j.run s).2 :=
  ran_of_progress (.waiting rfl rfl)

variable (j) in
/-- What the caches have under the key of the job is what the job makes. -/
structure Honest (s : Shared) : Prop where
  memo : ∀ m ∈ s.memo, ∀ p, m.find? j.key = some p → p = j.payload
  store : ∀ st ∈ j.store, ∀ p, st.get s.disk j.key = .ok (some p) → p = j.payload

variable (j) in
/-- What is said before the findings: nothing if the memo has the result. -/
def openingWarning (s : Shared) : List Diagnostic :=
  if (s.memo.bind (·.find? j.key)).isSome then [] else j.readWarning s

theorem openingWarning_eq_nil_of_memo {s : Shared} {m : Memo} {p : Payload}
    (has : s.memo = some m) (found : m.find? j.key = some p) : j.openingWarning s = [] := by
  rw [openingWarning, has]
  exact if_pos (congrArg Option.isSome found)

theorem openingWarning_of_misses {s : Shared} (missed : j.MissesMemo s) :
    j.openingWarning s = j.readWarning s := by
  refine if_neg fun h => ?_
  obtain ⟨p, hp⟩ := Option.isSome_iff_exists.1 h
  obtain ⟨m, hm, hfound⟩ := Option.bind_eq_some_iff.1 hp
  rw [missed m hm] at hfound
  exact nomatch hfound

theorem readWarning_eq_nil {s : Shared} {st : Store} {r : Option Payload} (has : j.store = some st)
    (found : st.get s.disk j.key = .ok r) : j.readWarning s = [] := by
  rw [readWarning, has]
  dsimp only
  rw [found]

theorem limit_freshBag : j.freshBag.limit = j.limit := rfl

theorem toList_addAll_freshBag (ds : List Diagnostic) :
    (j.freshBag.addAll ds).toList = ds.take j.limit := Bag.toList_ofList _ ds

/-- A kept result shows the findings that it was made with. -/
theorem toList_addAll_payload :
    (j.freshBag.addAll (j.payload.diagnostics j.file.id)).toList = j.findings.take j.limit := by
  rw [diagnostics_payload, toList_addAll_freshBag, List.take_take, Nat.min_self]

/-- **With honest caches a run shows what the job makes**, between what is said about
reading and about writing the store. -/
theorem shows_run {s : Shared} (h : j.Honest s) :
    ∃ bag w, j.Shows j.script.fragments bag (j.run s).1 ∧ (w = [] ∨ w = j.writeWarning s) ∧
      bag.limit = j.limit ∧
      bag.toList = (j.openingWarning s ++ (j.findings ++ w)).take j.limit := by
  cases j.run_ran s with
  | fromMemo has found shows =>
    obtain rfl := h.memo _ has _ found
    refine ⟨_, [], shows, .inl rfl, Bag.limit_addAll _ _, ?_⟩
    rw [toList_addAll_payload, openingWarning_eq_nil_of_memo has found, List.nil_append,
      List.append_nil]
  | fromStore missed has found shows =>
    obtain rfl := h.store _ has _ found
    refine ⟨_, [], shows, .inl rfl, Bag.limit_addAll _ _, ?_⟩
    rw [toList_addAll_payload, openingWarning_of_misses missed, readWarning_eq_nil has found,
      List.nil_append, List.append_nil]
  | made missed _ shows =>
    refine ⟨_, _, shows, .inr rfl, ?_, ?_⟩
    · rw [Bag.limit_addAll, Bag.limit_addAll, Bag.limit_addAll, limit_freshBag]
    · rw [Bag.addAll_append, Bag.addAll_append, toList_addAll_freshBag, Bag.take_append_take,
        openingWarning_of_misses missed]

end Job
end Tarjuman
