/-
# Damaged entries

An entry of the store that cannot be read as a payload, or that is of another version, costs a
run its short cut and nothing else.  The run shows what it shows without caches, behind one
warning if the entry is not readable, and it keeps its result in the place of the entry.  That
always succeeds: an entry that is read lies in a directory that is there, and what takes its
place there is what is read later (`Store.put_of_read`).
The warning is not part of what is kept, so the next run finds the result and shows no trace
of the damage.
-/

import Tarjuman.Proofs.CacheTransparency
import Tarjuman.Proofs.FileWrites

namespace Tarjuman

/-! ## Entries -/

namespace Store

variable {st : Store} {d : Disk} {key : Digest} {bytes : Text}

/-- **An entry that can be read can be written over**, and is then read as written. -/
theorem put_of_read (hkey : key.IsFull) (h : d.read (st.entryPath key) = .ok bytes) (p : Payload)
    (drawn : Nat) :
    ∃ d', st.put d key p drawn = (d', none) ∧
      d'.read (st.entryPath key) = .ok (Packed.encode { p with schema := BuildOptions.schema }) := by
  obtain ⟨q, hlook⟩ := Disk.lookup_of_read h
  have hadm := Disk.admissible_of_lookup hlook
  have hparts : ∀ c ∈ Path.cleanComponents st.dir ++ folderNames key, Path.Part c :=
    List.forall_mem_append.2 ⟨fun c hc => Path.part_of_mem_cleanComponents hc,
      fun c hc => (nameable_folderNames hkey c hc).toPart⟩
  have hne : Path.cleanComponents st.dir ++ folderNames key ≠ [] := by simp [folderNames]
  have hpath := entryPath_eq st hkey
  rw [← List.append_assoc] at hpath
  rw [hpath, Disk.lookup_ofComponents d true _ hparts (nameable_fileName hkey).toPart (hpath ▸ hadm)]
    at hlook
  -- the entry stands in a directory, itself or by a link
  obtain ⟨dir, hdir⟩ := Disk.resolve_of_concat hlook
  have hleads : d.LeadsTo (Path.isAbsolute st.dir)
      (Path.cleanComponents st.dir ++ folderNames key) dir := ⟨hparts, hdir⟩
  have hfolder : d.lookup true (st.folder key) = .found dir .directory := by
    rw [folder_eq st hkey, hleads.lookup_self hne ((hpath ▸ hadm).dropLast hne)]
  obtain ⟨hend, hleads'⟩ := hleads.put_last (nameable_fileName hkey) hlook
    (Packed.encode { p with schema := BuildOptions.schema })
  refine ⟨_, put_of_folder hkey (Disk.makeDirectories_of_found hfolder) hleads hadm hend p drawn, ?_⟩
  have hfound := hleads'.lookup_put (nameable_fileName hkey) (hpath ▸ hadm)
  exact Disk.read_of_lookup (hpath ▸ hfound)

/-- The bytes are no payload of this version. -/
def Damaged (bytes : Text) : Prop := ∀ p ∈ Packed.decode? bytes, p.schema ≠ BuildOptions.schema

theorem get_of_undecodable (h : d.read (st.entryPath key) = .ok bytes)
    (hbytes : Packed.decode? bytes = none) : st.get d key = .error unreadable := by
  rw [get, h]
  dsimp only
  rw [hbytes]

theorem get_of_outdated {p : Payload} (h : d.read (st.entryPath key) = .ok bytes)
    (hbytes : Packed.decode? bytes = some p) (hp : p.schema ≠ BuildOptions.schema) :
    st.get d key = .ok none := by
  rw [get, h]
  dsimp only
  rw [hbytes]
  dsimp only
  rw [if_neg hp]

end Store

/-! ## Runs -/

namespace Job

variable {j : Job} {s : Shared} {st : Store} {bytes : Text}

/-- The outcome of the job when there is no cache. -/
def uncached (j : Job) : Outcome := (({ j with store := none } : Job).run {}).1

theorem visible_uncached (htimings : j.options.timings = false) :
    j.uncached.visible = j.visible := by
  have hhonest : ({ j with store := none } : Job).Honest {} := by
    refine ⟨?_, ?_⟩
    · intro m hm; cases hm
    · intro st hst; cases hst
  exact visible_run hhonest rfl rfl htimings

/-- What a run says about the bytes of its entry: one warning if they are no payload. -/
def entryWarning (j : Job) (bytes : Text) : List Diagnostic :=
  if (Packed.decode? bytes).isNone then
    [j.cacheWarning ("cache read failed: " ++ Store.unreadable)]
  else []

/-- A damaged entry gives no payload, and a warning if it is not readable. -/
theorem readWarning_of_damaged (hstore : j.store = some st)
    (hread : s.disk.read (st.entryPath j.key) = .ok bytes) (hbad : Store.Damaged bytes) :
    (∀ p, st.get s.disk j.key ≠ .ok (some p)) ∧ j.readWarning s = j.entryWarning bytes := by
  rw [entryWarning]
  cases hdecode : Packed.decode? bytes with
  | none =>
    have hget := Store.get_of_undecodable hread hdecode
    rw [readWarning, hstore]
    dsimp only
    rw [hget]
    exact ⟨by simp, rfl⟩
  | some p =>
    have hget := Store.get_of_outdated hread hdecode (hbad p hdecode)
    rw [hget]
    exact ⟨by simp, readWarning_eq_nil hstore hget⟩

/-- **A result takes the place of an entry that could be read.** -/
theorem stored_of_read (hstore : j.store = some st)
    (hread : s.disk.read (st.entryPath j.key) = .ok bytes) :
    j.writeWarning s = [] ∧
      (j.diskAfter s).read (st.entryPath j.key) = .ok (Packed.encode j.payload) := by
  have hkey : j.key.IsFull := Digest.isFull_ofText _
  obtain ⟨d, hput, hread'⟩ := Store.put_of_read hkey hread j.payload 0
  rw [writeWarning, diskAfter, hstore]
  dsimp only
  rw [hput]
  exact ⟨rfl, hread'⟩

/-- **A run that finds its result on the disk has it from the caches** and shows what the job
makes. -/
theorem run_of_kept (hstore : j.store = some st)
    (hread : s.disk.read (st.entryPath j.key) = .ok (Packed.encode j.payload))
    (hmemo : ∀ m ∈ s.memo, ∀ p, m.find? j.key = some p → p = j.payload)
    (hfits : j.payload.Fits) (htimings : j.options.timings = false) :
    (j.run s).1.cached = true ∧ (j.run s).1.visible = j.visible := by
  have hget : st.get s.disk j.key = .ok (some j.payload) :=
    Store.get_of_decoded hread (Packed.decode?_encode hfits) rfl
  have hhonest : j.Honest s := by
    refine ⟨hmemo, fun st' hst' p hp => ?_⟩
    obtain rfl := Option.some.inj (hstore.symm.trans hst')
    exact (Option.some.inj (Except.ok.inj (hget.symm.trans hp))).symm
  refine ⟨?_, visible_run hhonest ?_ (stored_of_read hstore hread).1 htimings⟩
  · cases j.run_ran s with
    | fromMemo _ _ _ cached => exact cached
    | fromStore _ _ _ _ cached => exact cached
    | made _ unstored => exact absurd hget (unstored st hstore _)
  · rw [openingWarning, readWarning_eq_nil hstore hget]
    exact ite_self _

/-- A run beside a damaged entry makes its result and keeps it in both caches. -/
theorem run_of_damaged (hstore : j.store = some st) (hmemo : j.MissesMemo s)
    (hread : s.disk.read (st.entryPath j.key) = .ok bytes) (hbad : Store.Damaged bytes) :
    (j.run s).1.cached = false ∧ (j.run s).2.disk = j.diskAfter s ∧
      ∀ m ∈ (j.run s).2.memo, m.find? j.key = some j.payload := by
  obtain ⟨hnone, -⟩ := readWarning_of_damaged hstore hread hbad
  cases j.run_ran s with
  | fromMemo has found =>
    rw [hmemo _ has] at found
    cases found
  | fromStore _ has found =>
    obtain rfl := Option.some.inj (hstore.symm.trans has)
    exact absurd found (hnone _)
  | made _ _ _ cached memo disk =>
    refine ⟨cached, disk, fun m hm => ?_⟩
    rw [memo] at hm
    obtain ⟨m', -, rfl⟩ := Option.mem_map.1 hm
    exact Memo.find?_put m' j.key j.payload

/-- **A damaged entry shows as one warning at most**, before what the job makes. -/
theorem shows_of_damaged (hstore : j.store = some st) (hmemo : j.MissesMemo s)
    (hread : s.disk.read (st.entryPath j.key) = .ok bytes) (hbad : Store.Damaged bytes) :
    ∃ bag, j.Shows j.script.fragments bag (j.run s).1 ∧
      bag.toList = (j.entryWarning bytes ++ j.findings).take j.limit := by
  obtain ⟨hnone, hwarning⟩ := readWarning_of_damaged hstore hread hbad
  have hhonest : j.Honest s := by
    refine ⟨fun m hm p hp => ?_, fun st' hst' p hp => ?_⟩
    · rw [hmemo m hm] at hp
      cases hp
    · obtain rfl := Option.some.inj (hstore.symm.trans hst')
      exact absurd hp (hnone p)
  obtain ⟨bag, w, hshows, hw, -, hlist⟩ := j.shows_run hhonest
  have hw : w = [] := hw.elim id fun hw => hw.trans (stored_of_read hstore hread).1
  rw [openingWarning_of_misses hmemo, hwarning, hw, List.append_nil] at hlist
  exact ⟨bag, hshows, hlist⟩

end Job

/-- **Damaged entries are harmless and are healed.**  Whatever bytes lie in the entry of a
run's key, if they are no payload or one of another version, the run shows the fragments and
the output that it shows without caches, and the same diagnostics behind one warning if the
bytes are no payload, as far as the limit allows.  The entry then holds the result of the
run, so that with the disk as the run left it the next run has its result from the caches
and shows what it shows without them.  Sizes are written in four bytes, so the result has to
fit the format for that. -/
theorem damaged_entry_healed {j : Job} {s : Shared} {st : Store} {bytes : Text}
    (hstore : j.store = some st) (hmemo : j.MissesMemo s) (htimings : j.options.timings = false)
    (hread : s.disk.read (st.entryPath j.key) = .ok bytes) (hbad : Store.Damaged bytes) :
    (j.run s).1.cached = false ∧
      (j.run s).1.path = j.uncached.path ∧
      (j.run s).1.fragments = j.uncached.fragments ∧
      (j.run s).1.output = j.uncached.output ∧
      (j.run s).1.bag.toList = (j.entryWarning bytes ++ j.uncached.bag.toList).take j.limit ∧
      (∀ d ∈ j.uncached.bag.toList, d.code ≠ .cacheFailure) ∧
      (j.payload.Fits →
        (∃ bytes', (j.run s).2.disk.read (st.entryPath j.key) = .ok bytes' ∧
          Packed.decode? bytes' = some j.payload) ∧
        j.payload.schema = BuildOptions.schema ∧
        j.payload.fragments = j.uncached.fragments ∧
        j.payload.diagnostics j.file.id = j.uncached.bag.toList ∧
        ∀ s' : Shared, s'.disk = (j.run s).2.disk →
          (j.MissesMemo s' ∨ s'.memo = (j.run s).2.memo) →
          (j.run s').1.cached = true ∧ (j.run s').1.visible = j.uncached.visible) := by
  have huncached := Job.visible_uncached htimings
  simp only [Outcome.visible, Job.visible, Prod.mk.injEq] at huncached
  obtain ⟨hpath, hfragments, houtput, hbag⟩ := huncached
  have hlist : j.uncached.bag.toList = j.findings.take j.limit := by
    rw [hbag, Bag.toList_ofList]
    rfl
  obtain ⟨bag, hshows, hbytes⟩ := Job.shows_of_damaged hstore hmemo hread hbad
  obtain ⟨t, hclosing⟩ := hshows.bag_eq
  obtain ⟨hcached, hdisk, hkept⟩ := Job.run_of_damaged hstore hmemo hread hbad
  have hafter := (Job.stored_of_read hstore hread).2
  refine ⟨hcached, ?_, ?_, ?_, ?_, fun d hd => ?_, fun hfits => ⟨?_, rfl, ?_, ?_, ?_⟩⟩
  · rw [hshows.path_eq, hpath]
  · rw [hshows.fragments_eq, hfragments]
  · rw [hshows.output_eq, houtput]
  · have hclose : j.closingBag t bag = bag := by
      rw [Job.closingBag, htimings]
      exact if_neg Bool.false_ne_true
    have hcut := Bag.take_append_take j.limit (j.entryWarning bytes) j.findings []
    rw [List.append_nil, List.append_nil] at hcut
    rw [hclosing, hclose, hbytes, hlist, hcut]
  · rw [hlist] at hd
    exact Job.code_ne_of_mem_findings (List.mem_of_mem_take hd) (by decide)
  · rw [hdisk]
    exact ⟨_, hafter, Packed.decode?_encode hfits⟩
  · rw [hfragments]
    rfl
  · rw [Job.diagnostics_payload, hlist]
  · intro s' hdisk' hmemo'
    rw [Job.visible_uncached htimings]
    refine Job.run_of_kept hstore ?_ (fun m hm p hp => ?_) hfits htimings
    · rw [hdisk', hdisk]
      exact hafter
    · rcases hmemo' with hmisses | hleft
      · rw [hmisses m hm] at hp
        cases hp
      · rw [hkept m (hleft ▸ hm)] at hp
        exact (Option.some.inj hp).symm

/-- A job with two findings, a limit of two and a store. -/
def storedJob : Job := .ofSource "a" "x\nنوع " { maxDiagnostics := 2 } (some ⟨"/cache"⟩)

/-- The directory of the entry of that job. -/
def storedFolder : Place := ("cache" : Text) :: Store.folderNames storedJob.key

/-- An empty memo, and a disk with these bytes in the entry of that job. -/
def entryHolding (bytes : Text) : Shared :=
  { disk :=
      { entries :=
          [(["cache"], .directory), (["cache", "files"], .directory), (storedFolder, .directory),
           (storedFolder ++ [Store.fileName storedJob.key], .file bytes)] }
    memo := some (.new 1) }

/-- A byte that starts no payload: the warning takes the place of the second finding, and the
next run has both findings from the memo. -/
theorem damaged_entry_healed_junk :
    Packed.decode? [0xc1] = none ∧ storedJob.payload.Fits ∧
      storedJob.uncached.bag.toList.length = 2 ∧
      (storedJob.run (entryHolding [0xc1])).1.bag.toList =
        storedJob.cacheWarning ("cache read failed: " ++ Store.unreadable) ::
          storedJob.uncached.bag.toList.take 1 ∧
      (storedJob.run (storedJob.run (entryHolding [0xc1])).2).1.cached = true ∧
      (storedJob.run (storedJob.run (entryHolding [0xc1])).2).1.visible =
        storedJob.uncached.visible := by
  have hdecode : Packed.decode? [0xc1] = none := by decide
  have hfits : storedJob.payload.Fits := by decide +kernel
  have hmemo : storedJob.MissesMemo (entryHolding [0xc1]) := by
    rintro _ ⟨⟩
    rfl
  have hread : (entryHolding [0xc1]).disk.read
      (Store.entryPath ⟨"/cache"⟩ storedJob.key) = .ok [0xc1] := by decide +kernel
  have hbad : Store.Damaged [0xc1] := by
    intro p hp
    rw [hdecode] at hp
    cases hp
  have hwarning : storedJob.entryWarning [0xc1] =
      [storedJob.cacheWarning ("cache read failed: " ++ Store.unreadable)] := by
    rw [Job.entryWarning, hdecode]
    rfl
  obtain ⟨-, -, -, -, hbag, -, hnext⟩ := damaged_entry_healed rfl hmemo rfl hread hbad
  rw [hwarning] at hbag
  obtain ⟨-, -, -, -, hnext⟩ := hnext hfits
  obtain ⟨hcached, hvisible⟩ := hnext _ rfl (.inr rfl)
  exact ⟨hdecode, hfits, by decide +kernel, hbag, hcached, hvisible⟩

end Tarjuman
