/-
# What a new project leaves behind

A new project is made in four steps: the directories, the manifest, the program, and the manifest
loaded again.  The name is looked at only in the last one.  So if it is one that no manifest can hold,
the new manifest is already there when that is found out, and it stays; the same holds if the program
cannot be written.

`Scaffold.ending_run` says how a run in a directory without a manifest can end, and what is there
then.  From it, and from what loading makes of a fresh manifest (`Scaffold.load_of_read`), one reads
off which faults leave a manifest behind (`Scaffold.manifest_left_iff`).
-/

import Mathlib.Data.List.Basic
import Tarjuman.Project.Scaffold
import Tarjuman.Proofs.FreshDirectories
import Tarjuman.Proofs.ManifestRoundTrip
import Tarjuman.Proofs.StoreEntries

namespace Tarjuman

namespace Disk

variable {d d' : Disk} {follow : Bool} {budget : Nat} {here p q : Place} {cs : List Text}
  {c path content : Text} {e : DiskEntry} {rooted : Bool}

/-! ## Reading and writing -/

theorem stat_of_read (h : d.read path = .ok content) : d.stat path = .ok (.file content) :=
  stat_eq_ok_iff.2 (lookup_of_read h)

theorem get?_of_lookup_vacant (h : d.lookup follow path = .vacant q) : d.get? q = none := by
  have hholds := holdsOn_lookup d follow path
  rwa [h] at hholds

theorem extends_put_vacant (h : d.get? q = none) (e : DiskEntry) : q ≠ [] ∧ d.Extends (d.put q e) := by
  have hq : q ≠ [] := by
    rintro rfl
    cases h
  exact ⟨hq, extends_put hq (fun e' he => by cases h.symm.trans he) e⟩

/-- **What is put at a vacant place is found by every path that led there.** -/
theorem lookup_put_vacant (h : d.lookup follow path = .vacant q) (hlink : ∀ target, e ≠ .link target) :
    (d.put q e).lookup follow path = .found q e := by
  obtain ⟨hq, hext⟩ := extends_put_vacant (get?_of_lookup_vacant h) e
  refine lookup_end hext (by rw [h]; rfl) ?_ hlink
  rw [get?_put d hq, if_pos rfl]

/-- Files that were there before are read as before. -/
theorem read_put_vacant (h : d.get? q = none) (e : DiskEntry) (hread : d.read path = .ok content) :
    (d.put q e).read path = .ok content := by
  obtain ⟨p, hlook⟩ := lookup_of_read hread
  obtain ⟨hq, hext⟩ := extends_put_vacant h e
  have hp := get?_of_lookup hlook
  refine read_of_lookup (lookup_end hext (by rw [hlook]; rfl) ?_ (by simp))
  rw [get?_put d hq, if_neg, hp]
  rintro rfl
  cases h.symm.trans hp

/-- **A file in a tree is written**, and then it is there; or it is not, and then the path leads
somewhere only if that is a directory. -/
theorem IsTree.write_cases (h : d.IsTree) (rooted : Bool) (hcs : ∀ x ∈ cs, Path.Part x)
    (hc : Path.Part c) (content : Text) :
    (∃ d', d.write (Path.ofComponents rooted (cs ++ [c])) content = .ok d' ∧
      d'.read (Path.ofComponents rooted (cs ++ [c])) = .ok content) ∨
    ∃ fault, d.write (Path.ofComponents rooted (cs ++ [c])) content = .error fault ∧
      ((∃ e, d.stat (Path.ofComponents rooted (cs ++ [c])) = .ok e) ↔
        fault.cause = .isDirectory) := by
  have hsound := h.sound_lookup rooted true hcs hc
  have hslash : Text.endsWith (Path.ofComponents rooted (cs ++ [c])) "/" = false :=
    Path.not_endsWith_ofComponents rooted hc
  have hwrite := write.eq_def d (Path.ofComponents rooted (cs ++ [c])) content
  rw [Path.withoutSlash_ofComponents rooted hc] at hwrite
  simp only [stat_eq_ok_iff]
  generalize Path.ofComponents rooted (cs ++ [c]) = path at hsound hslash hwrite ⊢
  cases hlook : d.lookup true path with
  | found p e =>
    rw [hlook] at hsound hwrite
    cases e with
    | directory =>
      refine .inr ⟨_, hwrite, ?_⟩
      simp
    | link target => exact absurd rfl (hsound.2 rfl target)
    | file old =>
      dsimp only at hwrite
      rw [hslash, if_neg Bool.false_ne_true] at hwrite
      exact .inl ⟨_, hwrite, read_of_lookup (lookup_put_file hlook content)⟩
  | vacant p =>
    rw [hlook] at hwrite
    dsimp only at hwrite
    rw [hslash, if_neg Bool.false_ne_true] at hwrite
    exact .inl ⟨_, hwrite, read_of_lookup (lookup_put_vacant hlook (by simp))⟩
  | atLink dir target rest =>
    rw [hlook] at hwrite
    refine .inr ⟨_, hwrite, ?_⟩
    simp
  | failed cause =>
    rw [hlook] at hsound hwrite
    exact .inr ⟨_, hwrite, iff_of_false (by simp) hsound⟩

end Disk

namespace Scaffold

/-! ## Ends of a run -/

/-- Where the manifest of a project stands. -/
def manifestPath (dir : Text) : Text := Path.join [dir, Manifest.fileName]

/-- Where the sources of a new project stand. -/
def sourcePath (dir : Text) : Text := Path.join [dir, "src"]

/-- Where the program of a new project stands. -/
def mainPath (dir : Text) : Text := Path.join [sourcePath dir, mainName]

/-- The name of a new project: the one that is given, or that of the directory. -/
def nameOf (d : Disk) (dir name : Text) : Text :=
  if name.isEmpty then Path.base (Path.absolute d.cwd dir) else name

/-- **How a run ends where no manifest is**, and what is there then.  The name is that of the new
project. -/
inductive Ending (dir name : Text) : Except Fault Manifest × Disk → Prop where
  /-- The directories cannot be made. -/
  | noFolder {d : Disk} (fault : FileFault) (absent : ∀ e, d.stat (manifestPath dir) ≠ .ok e) :
      Ending dir name (.error (.create (sourcePath dir) fault), d)
  /-- The manifest cannot be written. -/
  | noManifest {d : Disk} (fault : FileFault)
      (there : (∃ e, d.stat (manifestPath dir) = .ok e) ↔ fault.cause = .isDirectory) :
      Ending dir name (.error (.write (manifestPath dir) fault), d)
  /-- The program cannot be written. -/
  | noProgram {d : Disk} (fault : FileFault)
      (written : d.read (manifestPath dir) = .ok (Manifest.fresh name).render) :
      Ending dir name (.error (.write (mainPath dir) fault), d)
  /-- All is written, and the manifest is loaded. -/
  | complete {d : Disk} (written : d.read (manifestPath dir) = .ok (Manifest.fresh name).render) :
      Ending dir name ((Manifest.load d (manifestPath dir)).mapError (.reload (manifestPath dir)), d)

/-- The manifest and the sources stand behind the cleaned components of the directory. -/
theorem join_dir (dir : Text) {c : Text} (hc : Path.Plain c) :
    Path.join [dir, c] =
      Path.ofComponents (Path.isAbsolute dir) (Path.cleanComponents dir ++ [c]) :=
  Path.join_cons dir (List.cons_ne_nil c []) (List.forall_mem_singleton.2 hc)

theorem plain_fileName : Path.Plain Manifest.fileName := by decide

theorem plain_src : Path.Plain (Text.ofString "src") := by decide

theorem plain_mainName : Path.Plain mainName := by decide

theorem mainPath_ne_manifestPath (dir : Text) : mainPath dir ≠ manifestPath dir := by
  intro h
  have hcomponents := congrArg Path.components h
  rw [mainPath, manifestPath, join_dir _ plain_mainName, join_dir dir plain_fileName,
    Path.components_ofComponents _ (fun _ => Path.part_of_mem_cleanComponents) plain_mainName.toPart,
    Path.components_ofComponents _ (fun _ => Path.part_of_mem_cleanComponents)
      plain_fileName.toPart] at hcomponents
  have hlast := (List.append_inj' hcomponents rfl).2
  revert hlast
  decide

/-- The program is written at a vacant place, or not at all. -/
theorem writeSample_cases {d d' : Disk} {dir : Text} (h : writeSample d (mainPath dir) = .ok d') :
    d' = d ∨ ∃ q, d.get? q = none ∧ d' = d.put q (.file sample) := by
  rw [writeSample] at h
  split at h
  · rename_i action path hstat
    have hwrite := Disk.write.eq_def d (mainPath dir) sample
    rw [mainPath, join_dir _ plain_mainName,
      Path.withoutSlash_ofComponents _ plain_mainName.toPart,
      Path.not_endsWith_ofComponents _ plain_mainName.toPart, ← join_dir _ plain_mainName,
      ← mainPath, h] at hwrite
    rw [Disk.stat, Disk.entry?] at hstat
    cases hlook : d.lookup true (mainPath dir) with
    | found p e =>
      rw [hlook] at hstat
      cases hstat
    | vacant p =>
      rw [hlook] at hwrite
      exact .inr ⟨p, Disk.get?_of_lookup_vacant hlook, Except.ok.inj hwrite⟩
    | atLink dir target rest =>
      rw [hlook] at hwrite
      cases hwrite
    | failed cause =>
      rw [hlook] at hwrite
      cases hwrite
  · exact .inl (Except.ok.inj h).symm

/-- The directories are made as `Disk.Making` says, and what comes out is a tree. -/
theorem making_sources {d : Disk} (hd : d.IsTree) (dir : Text) :
    (d.makeDirectories (sourcePath dir)).1.IsTree ∧
      Disk.Making d (Path.isAbsolute dir) (Path.cleanComponents dir) (Text.ofString "src")
        (d.makeDirectories (sourcePath dir)) := by
  have hclean : Path.IsClean (Path.isAbsolute dir)
      (Path.cleanComponents dir ++ [Text.ofString "src"]).reverse := by
    rw [List.reverse_append, List.reverse_singleton, List.singleton_append, Path.cleanComponents,
      List.reverse_reverse]
    refine ⟨?_, Path.isClean_foldl _ (show Path.IsClean _ [] from trivial)⟩
    rw [Path.cleanStep.eq_def, if_neg plain_src.notHere, if_neg plain_src.notAbove]
  rw [sourcePath, join_dir dir plain_src]
  exact hd.making hclean (List.forall_mem_append.2
    ⟨fun _ => Path.part_of_mem_cleanComponents, List.forall_mem_singleton.2 plain_src.toPart⟩)

/-- If the directories cannot be made, there is still no manifest. -/
theorem absent_of_making {d d' : Disk} {dir : Text} {fault : FileFault}
    (h : Disk.Making d (Path.isAbsolute dir) (Path.cleanComponents dir) (Text.ofString "src")
      (d', some fault))
    (habsent : ∀ e, d.stat (manifestPath dir) ≠ .ok e) (e : DiskEntry) :
    d'.stat (manifestPath dir) ≠ .ok e := by
  cases h with
  | same fault => exact habsent e
  | stuck fault missing beside =>
    intro hstat
    obtain ⟨q, hfound⟩ := Disk.stat_eq_ok_iff.1 hstat
    rw [manifestPath, join_dir dir plain_fileName] at hfound
    exact beside _ plain_fileName q e hfound

/-- **Every run in a directory without a manifest ends in one of these ways.** -/
theorem ending_run {d : Disk} {dir : Text} (hd : d.IsTree)
    (habsent : ∀ e, d.stat (manifestPath dir) ≠ .ok e) (name : Text) :
    Ending dir (nameOf d dir name) (run d dir name) := by
  obtain ⟨htree, hmaking⟩ := making_sources hd dir
  have hwrite (d₁ : Disk) (htree : d₁.IsTree) := htree.write_cases (Path.isAbsolute dir)
    (fun _ => Path.part_of_mem_cleanComponents (p := dir)) plain_fileName.toPart
    (Manifest.fresh (nameOf d dir name)).render
  simp only [← join_dir dir plain_fileName] at hwrite
  rw [run]
  cases hstat : d.stat (Path.join [dir, Manifest.fileName]) with
  | ok e => exact absurd hstat (habsent e)
  | error fault =>
    dsimp only
    rw [sourcePath] at htree hmaking
    generalize d.makeDirectories (Path.join [dir, "src"]) = made at htree hmaking ⊢
    obtain ⟨d₁, f₁⟩ := made
    cases f₁ with
    | some fault => exact .noFolder fault (absent_of_making hmaking habsent)
    | none =>
      dsimp only
      rw [← nameOf.eq_def d dir name]
      rcases hwrite d₁ htree with ⟨d₂, hd₂, hread⟩ | ⟨fault, hfault, hthere⟩
      · rw [hd₂]
        dsimp only
        cases hsample : writeSample d₂ (Path.join [Path.join [dir, "src"], mainName]) with
        | error fault => exact .noProgram fault hread
        | ok d₃ =>
          refine .complete ?_
          rcases writeSample_cases hsample with rfl | ⟨q, hq, rfl⟩
          · exact hread
          · exact Disk.read_put_vacant hq _ hread
      · rw [hfault]
        exact .noManifest fault hthere

/-! ## Manifests that are left -/

/-- **What loading makes of a fresh manifest** depends on its name. -/
theorem load_of_read {d : Disk} {path name : Text}
    (h : d.read path = .ok (Manifest.fresh name).render) :
    Manifest.load d path =
      if Toml.isReadable name then
        if (Text.trim name).isEmpty then .error .noName
        else .ok { Manifest.fresh (Text.trim name) with root := Path.absolute d.cwd (Path.parent path) }
      else .error .malformed := by
  have hreadable : (Manifest.fresh name).isReadable = Toml.isReadable name := by
    have hsrc : Toml.isReadable (Text.ofString "src") = true := by decide
    have hout : Toml.isReadable Manifest.usualOut = true := by decide
    have hseparator : Toml.isReadable Manifest.usualSeparator = true := by decide
    rw [Manifest.isReadable, Manifest.fresh, hsrc, hout, hseparator, Bool.and_true, Bool.and_true,
      Bool.and_true]
  have hsrc : Text.trim (Manifest.fresh name).src = Text.ofString "src" := by
    change Text.trim "src" = _
    decide
  have hout : (Text.trim (Manifest.fresh name).out).isEmpty = false := by
    change (Text.trim Manifest.usualOut).isEmpty = _
    decide
  rw [Manifest.load, h]
  dsimp only
  rw [Manifest.ofText_render, hreadable, Manifest.reread, hsrc, hout]
  rfl

/-- A manifest can hold the name. -/
def isUsable (name : Text) : Bool := Toml.isReadable name && !(Text.trim name).isEmpty

theorem usable_of_load {d : Disk} {path name : Text} {m : Manifest}
    (h : d.read path = .ok (Manifest.fresh name).render) (hload : Manifest.load d path = .ok m) :
    isUsable name = true ∧
      m = { Manifest.fresh (Text.trim name) with root := Path.absolute d.cwd (Path.parent path) } := by
  rw [load_of_read h] at hload
  split at hload
  next hreadable =>
    split at hload
    next => cases hload
    next hblank => exact ⟨by simp [isUsable, hreadable, hblank], (Except.ok.inj hload).symm⟩
  next => cases hload

/-- The fault leaves a manifest behind, or a directory in its place. -/
def Fault.leavesManifest (dir : Text) : Fault → Bool
  | .alreadyThere _ | .create _ _ => false
  | .write path fault => path != manifestPath dir || fault.cause == .isDirectory
  | .reload _ _ => true

/-- A run is refused at once only where there is a manifest. -/
theorem run_eq_alreadyThere_iff (d : Disk) (dir name : Text) :
    (run d dir name).1 = .error (.alreadyThere (manifestPath dir)) ↔
      ∃ e, d.stat (manifestPath dir) = .ok e := by
  rw [run, manifestPath]
  cases hstat : d.stat (Path.join [dir, Manifest.fileName]) with
  | ok e => exact iff_of_true rfl ⟨e, rfl⟩
  | error fault =>
    refine iff_of_false ?_ (by simp)
    dsimp only
    split
    · simp
    split
    · simp
    split
    · simp
    rename_i d₃ _
    cases Manifest.load d₃ (Path.join [dir, Manifest.fileName]) <;> simp [Except.mapError]

namespace Ending

variable {dir name : Text} {r : Except Fault Manifest × Disk}

/-- Whether a manifest is left can be told from the fault. -/
theorem stat_iff (h : Ending dir name r) {fault : Fault} (hfault : r.1 = .error fault) :
    (∃ e, r.2.stat (manifestPath dir) = .ok e) ↔ fault.leavesManifest dir = true := by
  cases h with
  | noFolder cause absent =>
    cases hfault
    exact iff_of_false (fun ⟨e, he⟩ => absent e he) (by simp [Fault.leavesManifest])
  | noManifest cause there =>
    cases hfault
    simpa [Fault.leavesManifest] using there
  | noProgram cause written =>
    cases hfault
    exact iff_of_true ⟨_, Disk.stat_of_read written⟩
      (by simp [Fault.leavesManifest, mainPath_ne_manifestPath])
  | @complete d written =>
    refine iff_of_true ⟨_, Disk.stat_of_read written⟩ ?_
    cases hload : Manifest.load d (manifestPath dir) with
    | ok m =>
      rw [hload] at hfault
      cases hfault
    | error cause =>
      rw [hload] at hfault
      cases hfault
      rfl

/-- The manifest that is returned is the one that was written. -/
theorem load_eq (h : Ending dir name r) {m : Manifest} (hm : r.1 = .ok m) :
    Manifest.load r.2 (manifestPath dir) = .ok m ∧
      r.2.read (manifestPath dir) = .ok (Manifest.fresh name).render := by
  cases h with
  | noFolder cause absent => cases hm
  | noManifest cause there => cases hm
  | noProgram cause written => cases hm
  | @complete d written =>
    refine ⟨?_, written⟩
    cases hload : Manifest.load d (manifestPath dir) with
    | ok m' =>
      rw [hload] at hm
      cases hm
      rfl
    | error cause =>
      rw [hload] at hm
      cases hm

/-- With a name that a manifest can hold, what was written can be loaded. -/
theorem ne_reload (h : Ending dir name r) (hname : isUsable name = true) (path : Text)
    (cause : Manifest.Fault) : r.1 ≠ .error (.reload path cause) := by
  cases h with
  | noFolder cause absent => simp
  | noManifest cause there => simp
  | noProgram cause written => simp
  | @complete d written =>
    obtain ⟨hreadable, hblank⟩ := (Bool.and_eq_true _ _).to_iff.1 hname
    rw [Bool.not_eq_true'] at hblank
    rw [load_of_read written, if_pos hreadable, hblank]
    simp [Except.mapError]

end Ending

/-- **When a new project leaves a manifest behind.**  In a directory without one, a run that succeeds
returns the manifest that is there then: it has the name without blanks around it, and the usual
values.  A run that fails leaves a manifest exactly if the program cannot be written or the new
manifest cannot be loaded, or if its place was taken by the new directory of the sources, to which it
is a link; every later run is then refused, whatever the name.  A new manifest cannot be loaded
exactly if its name is blank or cannot be read back. -/
theorem manifest_left_iff {d d' : Disk} {dir name : Text} {result : Except Fault Manifest}
    (hd : d.IsTree) (habsent : ∀ e, d.stat (manifestPath dir) ≠ .ok e)
    (hrun : run d dir name = (result, d')) :
    (∀ m, result = .ok m →
      (m.name = Text.trim (nameOf d dir name) ∧ m.src = "src" ∧ m.out = Manifest.usualOut ∧
        m.separator = Manifest.usualSeparator ∧ m.banner = true ∧ m.latinize = false) ∧
      Manifest.load d' (manifestPath dir) = .ok m ∧ isUsable (nameOf d dir name) = true) ∧
    ∀ fault, result = .error fault →
      ((∃ e, d'.stat (manifestPath dir) = .ok e) ↔ fault.leavesManifest dir = true) ∧
      (∀ later, (run d' dir later).1 = .error (.alreadyThere (manifestPath dir)) ↔
        fault.leavesManifest dir = true) ∧
      (isUsable (nameOf d dir name) = true → ∀ path cause, fault ≠ .reload path cause) := by
  have hending := ending_run hd habsent name
  rw [hrun] at hending
  refine ⟨fun m hm => ?_, fun fault hfault => ?_⟩
  · obtain ⟨hload, hread⟩ := hending.load_eq hm
    obtain ⟨husable, rfl⟩ := usable_of_load hread hload
    exact ⟨⟨rfl, rfl, rfl, rfl, rfl, rfl⟩, hload, husable⟩
  · have hstat := hending.stat_iff hfault
    refine ⟨hstat, fun later => (run_eq_alreadyThere_iff d' dir later).trans hstat, ?_⟩
    rintro husable path cause rfl
    exact hending.ne_reload husable path cause hfault

/-- A name with blanks around it, and one that is nothing else. -/
theorem manifest_left_iff_blanks :
    (∃ m, (run {} "/p" " x ").1 = .ok m ∧ m.name = "x" ∧
      Manifest.load (run {} "/p" " x ").2 (manifestPath "/p") = .ok m) ∧
    ∃ fault, (run {} "/p" " ").1 = .error fault ∧ ∀ later,
      (run (run {} "/p" " ").2 "/p" later).1 = .error (.alreadyThere (manifestPath "/p")) := by
  have htree : Disk.IsTree {} := by decide
  have habsent (e : DiskEntry) : Disk.stat {} (manifestPath "/p") ≠ .ok e := by
    have hstat : Disk.stat {} (manifestPath "/p") = .error ⟨"stat", "/p/lugha.toml", .missing⟩ := by
      decide
    simp [hstat]
  constructor
  · have hok : (run {} "/p" " x ").1 =
        .ok { Manifest.fresh "x" with root := "/p" } := by decide +kernel
    obtain ⟨hfields, hload, -⟩ := (manifest_left_iff htree habsent rfl).1 _ hok
    exact ⟨_, hok, hfields.1.trans (by decide), hload⟩
  · have hfault : (run {} "/p" " ").1 = .error (.reload "/p/lugha.toml" .noName) := by decide +kernel
    obtain ⟨-, hlater, -⟩ := (manifest_left_iff htree habsent rfl).2 _ hfault
    exact ⟨_, hfault, fun later => (hlater later).2 rfl⟩

/-- With a blank name no project is made, but its manifest is there, and it stands in the way of a
good name. -/
theorem blank_name_stays :
    (run {} "/" " ").1 = .error (.reload "/lugha.toml" .noName) ∧
    (run {} "/" " ").2.read "/lugha.toml" = .ok (Manifest.fresh " ").render ∧
    (run (run {} "/" " ").2 "/" "x").1 = .error (.alreadyThere "/lugha.toml") := by
  decide +kernel

end Scaffold
end Tarjuman
