/-
# Directories that were just made

On a real disk every entry stands in a directory (`Disk.IsTree`).  A directory that was just made is
then empty, so a name in it leads nowhere (`Disk.FreshAt.not_found`).

Making a directory with all above it ends in one of three ways (`Disk.Making`).  Nothing was
changed; or the last directory was made; or the way was made up to a place from which it does not go
on.  In the third case no entry that would stand beside the directory is found, because what stands
above it is fresh or no directory at all.
-/

import Mathlib.Data.List.Induction
import Tarjuman.Proofs.FileWrites
import Tarjuman.Proofs.MadeDirectories
import Tarjuman.Proofs.SourceOrder

namespace Tarjuman

/-! ## Clean components -/

namespace Path

/-- Above a component that goes up there are only such components. -/
theorem forall_above_of_isClean {rooted : Bool} {done : List Text}
    (h : IsClean rooted (Text.ofString ".." :: done)) : ∀ c ∈ done, c = Text.ofString ".." := by
  induction done with
  | nil => exact List.forall_mem_nil _
  | cons c done ih =>
    have hstep := h.1
    rw [cleanStep.eq_def, if_neg (by decide), if_pos rfl] at hstep
    by_cases hc : c = Text.ofString ".."
    · exact List.forall_mem_cons.2 ⟨hc, ih (hc ▸ h.2)⟩
    · have hlength := congrArg List.length hstep
      simp only [if_neg hc, List.length_cons] at hlength
      omega

/-- A clean component is the name of an entry or goes up. -/
theorem plain_or_above {rooted : Bool} {done : List Text} {c : Text} (h : IsClean rooted (c :: done))
    (hc : Part c) : Plain c ∨ c = Text.ofString ".." := by
  by_cases habove : c = Text.ofString ".."
  · exact .inr habove
  · refine .inl ⟨hc, fun hhere => ?_, habove⟩
    have hstep := h.1
    rw [cleanStep.eq_def, if_pos hhere] at hstep
    exact List.cons_ne_self c done hstep.symm

end Path

namespace Disk

variable {d d' : Disk} {follow : Bool} {budget : Nat} {here p q : Place} {cs : List Text}
  {c : Text} {e : DiskEntry} {rooted : Bool}

/-! ## Trees -/

/-- Every entry stands in a directory. -/
def IsTree (d : Disk) : Prop := ∀ x ∈ d.entries, d.get? x.1.dropLast = some .directory

instance (d : Disk) : Decidable d.IsTree :=
  inferInstanceAs (Decidable (∀ x ∈ d.entries, d.get? x.1.dropLast = some .directory))

theorem IsTree.parent (h : d.IsTree) (he : d.get? p = some e) :
    d.get? p.dropLast = some .directory := by
  rw [get?] at he
  split at he
  · rename_i hempty
    rw [List.isEmpty_iff.1 hempty]
    rfl
  · obtain ⟨x, hx, -⟩ := Option.map_eq_some_iff.1 he
    have hplace : x.1 = p := by simpa using List.find?_some hx
    exact hplace ▸ h x (List.mem_of_find?_eq_some hx)

/-- What is put where nothing stood leaves a tree. -/
theorem IsTree.put (h : d.IsTree) (hvacant : d.get? p = none) (hp : p ≠ [])
    (hparent : d.get? p.dropLast = some .directory) (e : DiskEntry) : (d.put p e).IsTree := by
  have hkeep {q : Place} (hq : d.get? q = some .directory) :
      (d.put p e).get? q = some .directory := by
    rw [get?_put d hp, if_neg, hq]
    rintro rfl
    cases hvacant.symm.trans hq
  intro x hx
  rcases List.mem_cons.1 hx with rfl | hx
  · exact hkeep hparent
  · exact hkeep (h x (List.mem_of_mem_filter hx))

/-- What holds at the end of a look-up in a tree. -/
def Arrival.Sound (d : Disk) (follow : Bool) : Arrival → Prop
  | .found p e => d.get? p = some e ∧ (follow = true → ∀ target, e ≠ .link target)
  | .vacant p => d.get? p = none ∧ p ≠ [] ∧ d.get? p.dropLast = some .directory
  | .atLink dir _ _ => d.get? dir = some .directory
  | .failed cause => cause ≠ .isDirectory

theorem IsTree.sound_descend (h : d.IsTree) (follow : Bool) (hhere : d.get? here = some .directory)
    (cs : List Text) : (d.descend follow here cs).Sound d follow := by
  induction cs generalizing here with
  | nil =>
    rw [descend_nil, hhere]
    exact ⟨hhere, by simp⟩
  | cons c rest ih =>
    rw [descend_cons hhere]
    split
    · exact ih hhere
    split
    · exact ih (h.parent hhere)
    split
    · simp [Arrival.Sound]
    rw [enter]
    cases hnext : d.get? (here ++ [c]) with
    | none =>
      dsimp only
      split
      · exact ⟨hnext, by simp, by rwa [List.dropLast_concat]⟩
      · simp [Arrival.Sound]
    | some e =>
      cases e with
      | link target =>
        dsimp only
        split
        · rename_i hend
          refine ⟨hnext, fun hfollow => ?_⟩
          rw [hfollow, Bool.not_true, Bool.and_false] at hend
          cases hend
        · exact hhere
      | directory => exact ih hnext
      | file content =>
        dsimp only
        rw [descend_of_file hnext]
        split
        · exact ⟨hnext, by simp⟩
        · simp [Arrival.Sound]

/-- **A look-up in a tree ends soundly.** -/
theorem IsTree.sound_resolve (h : d.IsTree) (follow : Bool) (budget : Nat)
    (hstart : d.get? here = some .directory ∨ cs ≠ []) :
    (d.resolve follow budget here cs).Sound d follow := by
  induction budget using Nat.strongRecOn generalizing here cs with
  | ind budget ih =>
    by_cases hhere : d.get? here = some .directory
    · have hsound := h.sound_descend follow hhere cs
      by_cases ha : d.resolve follow budget here cs = .failed .tooManyLinks
      · rw [ha]
        simp [Arrival.Sound]
      obtain hd | ⟨left, dir, target, rest, rfl, hd, hafter⟩ := resolve_eq_cases rfl ha
      · rwa [hd] at hsound
      · rw [hd] at hsound
        rw [← hafter]
        refine ih left (Nat.lt_succ_self left) (.inl ?_)
        split
        · rfl
        · exact hsound
    · obtain ⟨c, rest, rfl⟩ := List.exists_cons_of_ne_nil (hstart.resolve_left hhere)
      rw [resolve_of_descend (descend_of_not_directory hhere follow c rest) (by simp)]
      simp [Arrival.Sound]

/-- A path with components is refused before the disk is looked at, or it is followed. -/
theorem lookup_ofComponents_cases (rooted : Bool) (hcs : ∀ x ∈ cs, Path.Part x) (hc : Path.Part c) :
    (∃ cause, cause ≠ .isDirectory ∧ ∀ (d : Disk) (follow : Bool),
      d.lookup follow (Path.ofComponents rooted (cs ++ [c])) = .failed cause) ∨
    Admissible (Path.ofComponents rooted (cs ++ [c])) ∧ ∀ (d : Disk) (follow : Bool),
      d.lookup follow (Path.ofComponents rooted (cs ++ [c])) =
        d.resolve follow linkLimit (d.start rooted) (cs ++ [c]) := by
  by_cases ha : Admissible (Path.ofComponents rooted (cs ++ [c]))
  · exact .inr ⟨ha, fun d follow => lookup_ofComponents d follow rooted hcs hc ha⟩
  · refine .inl ?_
    have hne : ¬ (Path.ofComponents rooted (cs ++ [c])).isEmpty = true := fun hempty =>
      Path.ofComponents_ne_nil rooted hc (List.isEmpty_iff.1 hempty)
    by_cases hzero : (Path.ofComponents rooted (cs ++ [c])).contains 0 = true
    · exact ⟨.badName, by simp, fun d follow => by rw [lookup, if_neg hne, if_pos hzero]⟩
    · have hlong : longestPath ≤ (Path.ofComponents rooted (cs ++ [c])).length :=
        Nat.not_lt.1 fun hshort => ha ⟨hshort, fun h0 => hzero (List.contains_iff_mem.2 h0)⟩
      exact ⟨.nameTooLong, by simp, fun d follow => by
        rw [lookup, if_neg hne, if_neg hzero, if_pos hlong]⟩

theorem IsTree.sound_lookup (h : d.IsTree) (rooted follow : Bool) (hcs : ∀ x ∈ cs, Path.Part x)
    (hc : Path.Part c) :
    (d.lookup follow (Path.ofComponents rooted (cs ++ [c]))).Sound d follow := by
  rcases lookup_ofComponents_cases rooted hcs hc with ⟨cause, hcause, hfailed⟩ | ⟨-, hresolve⟩
  · rw [hfailed]
    exact hcause
  · rw [hresolve]
    exact h.sound_resolve follow _ (.inr (by simp))

/-- Whether a link at the end is followed does not matter where there is none. -/
theorem descend_follow {a : Arrival} (h : d.descend false here cs = a)
    (ha : ∀ q target, a ≠ .found q (.link target)) : d.descend true here cs = a := by
  induction cs generalizing here with
  | nil => rwa [descend_nil] at h ⊢
  | cons c rest ih =>
    by_cases hhere : d.get? here = some .directory
    · rcases descend_cons_cases here c with ⟨p, hstep⟩ | hstep | hstep
      · rw [hstep d _ _ hhere] at h ⊢
        exact ih h
      · rwa [hstep d _ _ hhere] at h ⊢
      rw [hstep d _ _ hhere, enter] at h ⊢
      cases hnext : d.get? (here ++ [c]) with
      | none => rwa [hnext] at h
      | some e =>
        rw [hnext] at h
        cases e with
        | link target =>
          dsimp only at h ⊢
          split at h
          · exact absurd h.symm (ha _ _)
          · rwa [if_neg (by simp)]
        | directory => exact ih h
        | file content => exact ih h
    · rwa [descend_of_not_directory hhere] at h ⊢

theorem resolve_follow (h : d.resolve false budget here cs = .vacant q) :
    d.resolve true budget here cs = .vacant q := by
  induction budget using Nat.strongRecOn generalizing here cs with
  | ind budget ih =>
    obtain hd | ⟨left, dir, target, rest, rfl, hd, hafter⟩ := resolve_eq_cases h (by simp)
    · exact resolve_of_descend (descend_follow hd (by simp)) (by simp) budget
    · rw [resolve_of_link (descend_follow hd (by simp))]
      exact ih left (Nat.lt_succ_self left) hafter

/-- Going up from a directory leads to a directory. -/
theorem IsTree.descend_above (h : d.IsTree) (follow : Bool) (hhere : d.get? here = some .directory)
    (hcs : ∀ c ∈ cs, c = Text.ofString "..") :
    ∃ p, d.descend follow here cs = .found p .directory := by
  induction cs generalizing here with
  | nil =>
    rw [descend_nil, hhere]
    exact ⟨here, rfl⟩
  | cons c rest ih =>
    obtain ⟨rfl, hrest⟩ := List.forall_mem_cons.1 hcs
    rw [descend_cons hhere, if_neg (by decide), if_pos rfl]
    exact ih (h.parent hhere) hrest

/-- Going up ends at no vacant place. -/
theorem IsTree.plain_of_vacant (h : d.IsTree) (hclean : Path.IsClean rooted (cs ++ [c]).reverse)
    (hcs : ∀ x ∈ cs, Path.Part x) (hc : Path.Part c)
    (hvacant : d.lookup follow (Path.ofComponents rooted (cs ++ [c])) = .vacant q) :
    Path.Plain c := by
  rw [List.reverse_append, List.reverse_singleton, List.singleton_append] at hclean
  refine (Path.plain_or_above hclean hc).resolve_right fun habove => ?_
  subst habove
  have hall : ∀ x ∈ cs ++ [Text.ofString ".."], x = Text.ofString ".." :=
    List.forall_mem_append.2 ⟨fun x hx =>
      Path.forall_above_of_isClean hclean x (List.mem_reverse.2 hx), List.forall_mem_singleton.2 rfl⟩
  rcases lookup_ofComponents_cases rooted hcs hc with ⟨cause, -, hfailed⟩ | ⟨-, hresolve⟩
  · cases (hfailed d follow).symm.trans hvacant
  · rw [hresolve] at hvacant
    by_cases hstart : d.get? (d.start rooted) = some .directory
    · obtain ⟨p, hd⟩ := h.descend_above follow hstart hall
      rw [resolve_of_descend hd (by simp)] at hvacant
      cases hvacant
    · obtain ⟨x, rest, hne⟩ := List.exists_cons_of_ne_nil (List.concat_ne_nil (Text.ofString "..") cs)
      rw [hne, resolve_of_descend (descend_of_not_directory hstart follow x rest) (by simp)] at hvacant
      cases hvacant

/-! ## Fresh directories -/

/-- The path with these components leads to an empty directory. -/
def FreshAt (d : Disk) (rooted : Bool) (cs : List Text) : Prop :=
  ∃ base, d.LeadsTo rooted cs base ∧ ∀ c, d.get? (base ++ [c]) = none

/-- **In an empty directory nothing is found.** -/
theorem FreshAt.not_found (h : d.FreshAt rooted cs) (hc : Path.Plain c) (follow : Bool) (q : Place)
    (e : DiskEntry) : d.lookup follow (Path.ofComponents rooted (cs ++ [c])) ≠ .found q e := by
  intro hfound
  obtain ⟨base, hleads, hempty⟩ := h
  have hparts : ∀ x ∈ [] ++ [c], Path.Part x := List.forall_mem_singleton.2 hc.toPart
  obtain ⟨left, hleft⟩ := hleads.lookup hparts (admissible_of_lookup hfound) follow
  rw [List.nil_append] at hleft
  have hend : d.descend follow base [c] = .failed .nameTooLong ∨
      d.descend follow base [c] = .vacant (base ++ [c]) := by
    rw [descend_cons hleads.get?, if_neg hc.notHere, if_neg hc.notAbove]
    split
    · exact .inl rfl
    · rw [enter, hempty]
      exact .inr rfl
  rcases hend with hend | hend <;>
  · rw [hleft, resolve_of_descend hend (by simp)] at hfound
    cases hfound

/-- A directory made at a vacant place is fresh. -/
theorem IsTree.freshAt_put (h : d.IsTree) (hcs : ∀ x ∈ cs, Path.Part x) (hc : Path.Part c)
    (hvacant : d.lookup false (Path.ofComponents rooted (cs ++ [c])) = .vacant p) :
    (d.put p .directory).IsTree ∧ (d.put p .directory).FreshAt rooted (cs ++ [c]) := by
  have hsound := h.sound_lookup rooted false hcs hc
  rw [hvacant] at hsound
  obtain ⟨hnone, hp, hparent⟩ := hsound
  refine ⟨h.put hnone hp hparent _, p, ⟨?_, ?_⟩, fun x => ?_⟩
  · exact List.forall_mem_append.2 ⟨hcs, List.forall_mem_singleton.2 hc⟩
  · rcases lookup_ofComponents_cases rooted hcs hc with ⟨cause, -, hfailed⟩ | ⟨-, hresolve⟩
    · cases (hfailed d false).symm.trans hvacant
    · have hend := resolve_follow ((hresolve d false).symm.trans hvacant)
      have hext : d.Extends (d.put p .directory) :=
        extends_put hp (fun e he => by cases hnone.symm.trans he) _
      have hends : (d.resolve true linkLimit (d.start rooted) (cs ++ [c])).EndsAt p := by
        rw [hend]
        rfl
      refine resolve_end hext hends ?_ (by simp)
      rw [get?_put d hp, if_pos rfl]
  · rw [get?_put d hp, if_neg (by simp)]
    cases hchild : d.get? (p ++ [x]) with
    | none => rfl
    | some e =>
      have hp' := h.parent hchild
      rw [List.dropLast_concat, hnone] at hp'
      cases hp'

/-! ## Ways to make a directory -/

/-- What stands above is made first, unless the directory is there. -/
theorem makeDirectories_cases (path : Text) :
    (d.makeDirectories path).1 = d ∨
      ∃ d₁ f₁, (if above path ≠ [] then d.makeDirectories (above path) else (d, none)) = (d₁, f₁) ∧
        ((∃ fault, f₁ = some fault ∧ d.makeDirectories path = (d₁, some fault)) ∨
          f₁ = none ∧
            ((∃ d₂, d₁.makeDirectory path = .ok d₂ ∧ d.makeDirectories path = (d₂, none)) ∨
              (∃ fault, d₁.makeDirectory path = .error fault) ∧
                ((d₁.statLink path = .ok .directory ∧ d.makeDirectories path = (d₁, none)) ∨
                  ∃ fault, d.makeDirectories path = (d₁, some fault)))) := by
  rw [makeDirectories]
  cases hstat : d.stat path with
  | ok e => cases e <;> exact .inl rfl
  | error fault =>
    refine .inr ?_
    dsimp only
    rw [dite_eq_ite]
    generalize (if above path ≠ [] then d.makeDirectories (above path) else (d, none)) = made
    obtain ⟨d₁, f₁⟩ := made
    refine ⟨d₁, f₁, rfl, ?_⟩
    cases f₁ with
    | some fault => exact .inl ⟨fault, rfl, rfl⟩
    | none =>
      refine .inr ⟨rfl, ?_⟩
      dsimp only
      rw [if_neg (by simp)]
      cases hmake : d₁.makeDirectory path with
      | ok d₂ => exact .inl ⟨d₂, rfl, rfl⟩
      | error fault =>
        refine .inr ⟨⟨fault, rfl⟩, ?_⟩
        dsimp only
        split
        · rename_i hlink
          exact .inl ⟨hlink, rfl⟩
        · exact .inr ⟨fault, rfl⟩

theorem makeDirectory_cases (d : Disk) (rooted : Bool) (cs : List Text) (hc : Path.Part c) :
    (∃ p, d.lookup false (Path.ofComponents rooted (cs ++ [c])) = .vacant p ∧
      d.makeDirectory (Path.ofComponents rooted (cs ++ [c])) = .ok (d.put p .directory)) ∨
    ∃ fault, d.makeDirectory (Path.ofComponents rooted (cs ++ [c])) = .error fault := by
  rw [makeDirectory, Path.withoutSlash_ofComponents rooted hc]
  cases d.lookup false (Path.ofComponents rooted (cs ++ [c])) with
  | vacant p => exact .inl ⟨p, rfl, rfl⟩
  | found p e => exact .inr ⟨_, rfl⟩
  | atLink dir target rest => exact .inr ⟨_, rfl⟩
  | failed cause => exact .inr ⟨_, rfl⟩

/-- **How making a directory ends.**  Nothing is changed; the directory is made; or it is not, and
then nothing is found beside it either. -/
inductive Making (d : Disk) (rooted : Bool) (cs : List Text) (c : Text) :
    Disk × Option FileFault → Prop where
  | same (fault : Option FileFault) : Making d rooted cs c (d, fault)
  | made {d' : Disk} (name : Path.Plain c) (fresh : d'.FreshAt rooted (cs ++ [c])) :
      Making d rooted cs c (d', none)
  | stuck {d' : Disk} (fault : FileFault)
      (missing : ∀ q, d'.lookup true (Path.ofComponents rooted (cs ++ [c])) ≠ .found q .directory)
      (beside : ∀ x, Path.Plain x → ∀ q e,
        d'.lookup true (Path.ofComponents rooted (cs ++ [x])) ≠ .found q e) :
      Making d rooted cs c (d', some fault)

/-- Where no directory is, nothing is found behind it. -/
theorem not_found_of_not_directory {xs : List Text} {x y : Text} (hxs : ∀ z ∈ xs, Path.Part z)
    (hx : Path.Part x) (hy : Path.Part y)
    (h : ∀ q, d.lookup true (Path.ofComponents rooted (xs ++ [x])) ≠ .found q .directory) (q : Place)
    (e : DiskEntry) : d.lookup true (Path.ofComponents rooted (xs ++ [x] ++ [y])) ≠ .found q e := by
  intro hfound
  have hparts : ∀ z ∈ xs ++ [x], Path.Part z :=
    List.forall_mem_append.2 ⟨hxs, List.forall_mem_singleton.2 hx⟩
  have ha := admissible_of_lookup hfound
  rw [lookup_ofComponents d true rooted hparts hy ha] at hfound
  obtain ⟨p, hp⟩ := resolve_of_concat hfound
  refine h p ?_
  rw [lookup_ofComponents d true rooted hxs hx (ha.dropLast (by simp)), hp]

/-- One directory, after all above it: these are as they were, fresh, or in the way. -/
theorem IsTree.making_step {d₁ : Disk} (f₁ : Option FileFault) (h : d.IsTree) (h₁ : d₁.IsTree)
    (hclean : Path.IsClean rooted (cs ++ [c]).reverse) (hparts : ∀ x ∈ cs ++ [c], Path.Part x)
    (habove : (if above (Path.ofComponents rooted (cs ++ [c])) ≠ []
      then d.makeDirectories (above (Path.ofComponents rooted (cs ++ [c]))) else (d, none)) =
        (d₁, f₁))
    (hmade : f₁ = none → d₁ = d ∨ Path.Plain c ∧ d₁.FreshAt rooted cs)
    (hstuck : f₁ ≠ none → d₁ = d ∨ ∀ y, Path.Part y → ∀ q e,
      d₁.lookup true (Path.ofComponents rooted (cs ++ [y])) ≠ .found q e) :
    (d.makeDirectories (Path.ofComponents rooted (cs ++ [c]))).1.IsTree ∧
      Making d rooted cs c (d.makeDirectories (Path.ofComponents rooted (cs ++ [c]))) := by
  obtain ⟨hcs, hc⟩ := List.forall_mem_append.1 hparts
  have hc := List.forall_mem_singleton.1 hc
  rcases makeDirectories_cases (d := d) (Path.ofComponents rooted (cs ++ [c])) with
    hsame | ⟨d₁', f₁', habove', hcases⟩
  · rw [show d.makeDirectories (Path.ofComponents rooted (cs ++ [c])) = (d, _) from
      Prod.ext hsame rfl]
    exact ⟨h, .same _⟩
  obtain ⟨rfl, rfl⟩ := Prod.mk.inj (habove'.symm.trans habove)
  rcases hcases with ⟨fault, rfl, hresult⟩ | ⟨rfl, ⟨d₂, hmake, hresult⟩ | ⟨⟨fault, hmake⟩, hrest⟩⟩
  · rw [hresult]
    refine ⟨h₁, ?_⟩
    rcases hstuck (by simp) with rfl | hnone
    · exact .same _
    · exact .stuck fault (fun q => hnone c hc q _) fun x hx => hnone x hx.toPart
  · rcases makeDirectory_cases d₁' rooted cs hc with ⟨p, hvacant, hput⟩ | ⟨fault, hfault⟩
    · obtain rfl := Except.ok.inj (hmake.symm.trans hput)
      obtain ⟨htree, hfresh⟩ := h₁.freshAt_put hcs hc hvacant
      rw [hresult]
      exact ⟨htree, .made (h₁.plain_of_vacant hclean hcs hc hvacant) hfresh⟩
    · cases hmake.symm.trans hfault
  · rcases hrest with ⟨hlink, hresult⟩ | ⟨fault, hresult⟩
    · rw [hresult]
      refine ⟨h₁, ?_⟩
      rcases hmade rfl with rfl | ⟨hplain, hfresh⟩
      · exact .same _
      · -- it cannot be there in a fresh directory
        obtain ⟨q, hfound⟩ := statLink_eq_ok_iff.1 hlink
        exact absurd hfound (hfresh.not_found hplain false q _)
    · rw [hresult]
      refine ⟨h₁, ?_⟩
      rcases hmade rfl with rfl | ⟨hplain, hfresh⟩
      · exact .same _
      · exact .stuck fault (fun q => hfresh.not_found hplain true q _) fun x hx =>
          hfresh.not_found hx true

/-- **Making a directory in a tree** leaves a tree and ends in one of three ways. -/
theorem IsTree.making (h : d.IsTree) (hclean : Path.IsClean rooted (cs ++ [c]).reverse)
    (hparts : ∀ x ∈ cs ++ [c], Path.Part x) :
    (d.makeDirectories (Path.ofComponents rooted (cs ++ [c]))).1.IsTree ∧
      Making d rooted cs c (d.makeDirectories (Path.ofComponents rooted (cs ++ [c]))) := by
  induction cs using List.reverseRecOn generalizing c with
  | nil =>
    have hc := hparts c (List.mem_append_right [] List.mem_cons_self)
    have habove : above (Path.ofComponents rooted ([] ++ [c])) = [] := Path.above_ofComponents rooted hc
    exact h.making_step none h hclean hparts (by rw [habove]; rfl) (fun _ => .inl rfl) fun hne =>
      absurd rfl hne
  | append_singleton cs b ih =>
    obtain ⟨hbefore, hlast⟩ := List.forall_mem_append.1 hparts
    obtain ⟨hcs, hb⟩ := List.forall_mem_append.1 hbefore
    have hc := List.forall_mem_singleton.1 hlast
    have hb := List.forall_mem_singleton.1 hb
    rw [List.reverse_append, List.reverse_singleton, List.singleton_append] at hclean
    have habove : above (Path.ofComponents rooted (cs ++ [b] ++ [c])) =
        Path.ofComponents rooted (cs ++ [b]) := by
      rw [Path.above_ofComponents rooted hc, if_neg (by simp)]
    obtain ⟨htree, hmaking⟩ := ih hclean.2 hbefore
    generalize hmade : d.makeDirectories (Path.ofComponents rooted (cs ++ [b])) = made at htree hmaking
    obtain ⟨d₁, f₁⟩ := made
    refine h.making_step f₁ htree ?_ hparts ?_ (fun hnone => ?_) fun hne => ?_
    · rwa [List.reverse_append, List.reverse_singleton, List.singleton_append]
    · rw [habove, if_pos (Path.ofComponents_ne_nil rooted hb), hmade]
    · cases hmaking with
      | same fault => exact .inl rfl
      | stuck fault missing beside => cases hnone
      | made name fresh =>
        refine .inr ⟨(Path.plain_or_above hclean hc).resolve_right fun heq => ?_, fresh⟩
        rw [heq] at hclean
        exact name.notAbove (Path.forall_above_of_isClean hclean b (by simp))
    · cases hmaking with
      | same fault => exact .inl rfl
      | made name fresh => exact absurd rfl hne
      | stuck fault missing beside =>
        exact .inr fun y hy => not_found_of_not_directory hcs hb hy missing

end Disk
end Tarjuman
