/-
# Jobs that share caches step by step

Workers take the steps of their jobs in any order, so between two steps of a job the
caches may have been changed by others.  What a job has gathered is right at each of its
stages all the same (`Job.OnTrack`): with faithful caches a step leads to a stage that is
right again, and leaves the caches faithful (`Job.onTrack_step`).

Files of one directory have different numbers, and those with the same content share a
key.  They share a payload too, since a payload says nothing of the number
(`Job.payload_eq_of_content`).  So if digests do not collide on the texts at hand and renamers
of one kind spell alike, each of several jobs keeps its own payload under its key and no other
(`Job.keeps_of_mem`).
-/

import Tarjuman.Proofs.CacheTransparency
import Tarjuman.Proofs.ShiftedScript

namespace Tarjuman

/-- What is kept of a finding does not depend on its file. -/
theorem StoredReport.ofDiagnostic_toFile (i id : FileId) (d : Diagnostic) :
    StoredReport.ofDiagnostic (d.shift (.toFile i id)) = .ofDiagnostic d := by
  simp [StoredReport.ofDiagnostic, Diagnostic.shift, Span.shift, Note.shift, Shift.toFile,
    Function.comp_def]

namespace Job

/-- The job for the same file with another number. -/
def inFile (j : Job) (id : FileId) : Job := { j with file := { j.file with id } }

section InFile

variable (j : Job) (id : FileId)

theorem script_inFile : (j.inFile id).script = j.script.shift (.toFile j.file.id id) := by
  have htokens : (tokenize id j.file.content).tokens =
      (tokenize j.file.id j.file.content).tokens.map (Token.shift (.toFile j.file.id id)) := by
    rw [tokenize_toFile j.file.id id]
    rfl
  show transpile id (some j.file.content) j.options.style (tokenize id j.file.content).tokens = _
  rw [htokens, transpile_toFile, ← script]

theorem findings_inFile :
    (j.inFile id).findings = j.findings.map (Diagnostic.shift (.toFile j.file.id id)) := by
  have hreports : (tokenize id j.file.content).reports =
      (tokenize j.file.id j.file.content).reports.map
        (Diagnostic.shift (.toFile j.file.id id)) := by
    rw [tokenize_toFile j.file.id id]
    rfl
  rw [findings, script_inFile, findings, List.map_append, ← hreports]
  rfl

/-- A payload says nothing of the number of the file. -/
theorem payload_inFile : (j.inFile id).payload = j.payload := by
  have hreports (ds : List Diagnostic) :
      (ds.map (Diagnostic.shift (.toFile j.file.id id))).map StoredReport.ofDiagnostic =
        ds.map .ofDiagnostic := by
    rw [List.map_map]
    exact List.map_congr_left fun d _ => StoredReport.ofDiagnostic_toFile _ _ d
  rw [payload, payload, Payload.ofResult, Payload.ofResult, script_inFile, findings_inFile,
    ← List.map_take, hreports]
  rfl

end InFile

/-- **The payload of a file is that of its content** under options that agree and spell alike,
whatever the number of the file. -/
theorem payload_eq_of_content {j j' : Job} (hcontent : j.file.content = j'.file.content)
    (h : j.options.Agree j'.options) (hrename : j.options.rename = j'.options.rename) :
    j.payload = j'.payload := by
  rw [← payload_inFile j j'.file.id]
  exact payload_congr rfl hcontent h hrename

/-- The texts whose digests make the key of the job. -/
def hashed (j : Job) : List Text := j.options.hashed j.file.content

/-- The payloads of the jobs under their keys. -/
def Kept (js : List Job) (key : Digest) (p : Payload) : Prop :=
  ∃ j ∈ js, key = j.key ∧ p = j.payload

/-- As far as digests do not collide and kinds decide, each job keeps its own payload under its
key. -/
theorem keeps_of_mem {js : List Job} {j : Job} (hj : j ∈ js)
    (hfree : Digest.CollisionFree (js.flatMap hashed))
    (hkinds : BuildOptions.KindsDecide (js.map options)) (hfits : j.store.isSome → j.payload.Fits) :
    j.Keeps (Kept js) := by
  refine ⟨Digest.isFull_ofText _, ⟨j, hj, rfl, rfl⟩, ?_, hfits⟩
  rintro p ⟨j', hj', hkey, rfl⟩
  have hmem {j : Job} (hj : j ∈ js) :
      ∀ t ∈ j.options.hashed j.file.content, t ∈ js.flatMap hashed :=
    fun t ht => List.mem_flatMap.2 ⟨j, hj, ht⟩
  obtain ⟨hcontent, hagree⟩ := BuildOptions.eq_of_cacheKey_eq hfree (hmem hj') (hmem hj) hkey.symm
  exact payload_eq_of_content hcontent hagree
    (hkinds _ (List.mem_map_of_mem hj') _ (List.mem_map_of_mem hj) hagree.kind)

/-- The bag with all findings of the job, as far as there is room. -/
def fullBag (j : Job) : Bag := .ofList j.options.maxDiagnostics j.findings

theorem addAll_findings (j : Job) : j.freshBag.addAll (j.findings.take j.limit) = j.fullBag := by
  refine Bag.ext ?_ ((Bag.limit_addAll _ _).trans (Bag.limit_ofList _ _).symm)
  rw [toList_addAll_freshBag, fullBag, Bag.toList_ofList, List.take_take, Nat.min_self]
  rfl

theorem addAll_payload (j : Job) :
    j.freshBag.addAll (j.payload.diagnostics j.file.id) = j.fullBag := by
  rw [diagnostics_payload, addAll_findings]

/-- What a job has gathered is right for the stage at which it stands. -/
inductive OnTrack (j : Job) : Stage → Prop where
  | waiting : OnTrack j .waiting
  | atMemo {n : Notes} (bag : n.bag = j.freshBag) : OnTrack j (.atMemo n)
  | atStore {n : Notes} (bag : n.bag = j.freshBag) : OnTrack j (.atStore n)
  | found {n : Notes} (bag : n.bag = j.freshBag) : OnTrack j (.found n j.payload)
  | atWork {n : Notes} (bag : n.bag = j.freshBag) : OnTrack j (.atWork n)
  | keeping {n : Notes} (bag : n.bag = j.fullBag) : OnTrack j (.keeping n j.payload)
  | storing {n : Notes} (bag : n.bag = j.fullBag) : OnTrack j (.storing n j.payload)
  | finished {o : Outcome} (shows : j.Shows j.script.fragments j.fullBag o) :
      OnTrack j (.finished o)

end Job

section Step

variable {kept : Digest → Payload → Prop} {store : Option Store} {j : Job} {s s' : Shared}

namespace Faithful

/-- Only the memo and the disk count. -/
theorem congr (h : Faithful store kept s) (hmemo : s'.memo = s.memo) (hdisk : s'.disk = s.disk) :
    Faithful store kept s' :=
  ⟨hmemo ▸ h.memo, hdisk ▸ h.store⟩

/-- The memo may be asked. -/
theorem asked (h : Faithful store kept s) {m : Memo} (hm : s.memo = some m) (key : Digest) :
    Faithful store kept { s with memo := some (m.get key).2 } := by
  refine ⟨?_, h.store⟩
  rintro _ ⟨⟩
  exact h.memo m hm

/-- A payload that may be kept may be put into the memo. -/
theorem remembered (h : Faithful store kept s) {key : Digest} {p : Payload} (hp : kept key p) :
    Faithful store kept { s with memo := s.memo.map (·.put key p) } := by
  refine ⟨fun m hm x hx => ?_, h.store⟩
  obtain ⟨m', hm', rfl⟩ := Option.mem_map.1 hm
  rcases Memo.mem_put hx with rfl | hx
  · exact hp
  · exact h.memo m' hm' x hx

/-- A job that uses the store, or none, sees faithful caches. -/
theorem ofJob (h : Faithful store kept s) (hstore : ∀ st ∈ j.store, st ∈ store) :
    Faithful j.store kept s :=
  ⟨h.memo, fun st hst => h.store st (hstore st hst)⟩

end Faithful

namespace Job

/-- A kept payload closes the job as it should. -/
theorem onTrack_closeWith {n : Notes} (bag : n.bag = j.freshBag) (h : Faithful store kept s) :
    j.OnTrack (j.closeWith n j.payload s).1 ∧
      Faithful store kept (j.closeWith n j.payload s).2 := by
  obtain ⟨o, s', hclose, hshows, -, hmemo, hdisk⟩ := shows_closeWith (j := j) n j.payload s
  rw [bag, addAll_payload] at hshows
  rw [hclose]
  exact ⟨.finished hshows, h.congr hmemo hdisk⟩

theorem onTrack_close {n : Notes} (bag : n.bag = j.fullBag) (h : Faithful store kept s) :
    j.OnTrack (j.close n j.payload.fragments false s).1 ∧
      Faithful store kept (j.close n j.payload.fragments false s).2 := by
  obtain ⟨o, s', hclose, hshows, -, hmemo, hdisk⟩ :=
    shows_close (j := j) n j.payload.fragments false s
  rw [bag] at hshows
  rw [hclose]
  exact ⟨.finished hshows, h.congr hmemo hdisk⟩

/-- **A step leads from a right stage to a right stage** and leaves the caches faithful. -/
theorem onTrack_step {st : Stage} (hstore : ∀ st ∈ j.store, st ∈ store) (hj : j.Keeps kept)
    (h : Faithful store kept s) (ht : j.OnTrack st) :
    j.OnTrack (j.step st s).1 ∧ Faithful store kept (j.step st s).2 := by
  have hown : Faithful j.store kept s := h.ofJob hstore
  cases ht with
  | waiting =>
    rw [step]
    dsimp only
    refine ⟨?_, h.congr rfl rfl⟩
    split
    · exact .atMemo rfl
    · exact .atWork rfl
  | atMemo bag =>
    rw [step]
    split
    · exact ⟨.atStore bag, h⟩
    rename_i m hm
    split
    · rename_i p m' hget
      have hfound : m.find? j.key = some p := congrArg Prod.fst hget
      obtain rfl : (m.get j.key).2 = m' := congrArg Prod.snd hget
      obtain rfl := (hown.honest hj).memo m hm p hfound
      exact onTrack_closeWith bag (h.asked hm j.key)
    · rename_i m' hget
      obtain rfl : (m.get j.key).2 = m' := congrArg Prod.snd hget
      exact ⟨.atStore bag, h.asked hm j.key⟩
  | atStore bag =>
    rw [step]
    split
    · exact ⟨.atWork bag, h⟩
    rename_i st hst
    rcases hown.get hj hst with hget | hget
    · rw [hget]
      exact ⟨.atWork bag, h⟩
    · rw [hget]
      exact ⟨.found bag, h⟩
  | found bag =>
    rw [step]
    exact onTrack_closeWith bag (h.remembered hj.payload)
  | atWork bag =>
    rw [step, work, transpiled_eq]
    exact ⟨.keeping (bag ▸ j.addAll_findings), h.congr rfl rfl⟩
  | keeping bag =>
    rw [step]
    exact ⟨.storing bag, h.remembered hj.payload⟩
  | storing bag =>
    rw [step]
    split
    · exact onTrack_close bag h
    rename_i st hst
    obtain ⟨hput, htidy⟩ := hown.put hj hst
    split
    · rename_i disk hdisk
      have hstored : Faithful store kept { s with disk } := by
        refine ⟨h.memo, fun st' hst' => ?_⟩
        obtain rfl : st = st' := Option.some.inj ((hstore st hst).symm.trans hst')
        rw [hdisk] at htidy
        exact htidy
      exact onTrack_close bag hstored
    · rename_i hfault
      rw [hfault] at hput
      cases hput
  | finished shows =>
    rw [step]
    exact ⟨.finished shows, h⟩

/-- **A whole run shows what the job makes** and leaves the caches faithful. -/
theorem shows_runFrom {st : Stage} (hstore : ∀ st ∈ j.store, st ∈ store) (hj : j.Keeps kept)
    (h : Faithful store kept s) (ht : j.OnTrack st) :
    j.Shows j.script.fragments j.fullBag (j.runFrom st s).1 ∧
      Faithful store kept (j.runFrom st s).2 := by
  fun_induction runFrom j st s with
  | case1 s o =>
    cases ht with
    | finished shows => exact ⟨shows, h⟩
  | case2 s ih | case3 s n ih | case4 s n ih | case5 s n p ih | case6 s n ih | case7 s n p ih
  | case8 s n p ih =>
    obtain ⟨ht, h⟩ := onTrack_step hstore hj h ht
    exact ih h ht

end Job
end Step
end Tarjuman
