/-
# Files that take the place of others

A file can be written beside its place and then be moved there.  Among more numbers than a disk has
entries one is free, so there is a name for the file that nothing in its directory has
(`Disk.get?_freeNumber`).  It is in nobody's way there, and when it has been moved the disk is as if
it had been written in its place at once (`Disk.replace_put`).

The end of a path is looked at without following a link there, so what is known of the directory
before it tells what is seen (`Disk.refused_or_seen`).  A file that takes the place of such an end
is found there afterwards (`Disk.LeadsTo.put_last`, `Disk.LeadsTo.lookup_put`).
-/

import Mathlib.Data.List.Nodup
import Tarjuman.Proofs.CacheKey
import Tarjuman.Proofs.FileWrites
import Tarjuman.Proofs.MadeDirectories

namespace Tarjuman
namespace Disk

variable {d : Disk} {p q dir : Place} {start : Text}

/-! ## New names -/

theorem mem_entries_of_get? {e : DiskEntry} (hp : p ≠ []) (h : d.get? p = some e) :
    (p, e) ∈ d.entries := by
  rw [get?, if_neg (mt List.isEmpty_iff.1 hp), Option.map_eq_some_iff] at h
  obtain ⟨⟨p', e'⟩, hfind, rfl⟩ := h
  have hbeq := List.find?_some hfind
  obtain rfl : p' = p := eq_of_beq hbeq
  exact List.mem_of_find?_eq_some hfind

/-- No more numbers are taken than there are entries. -/
theorem length_le_of_taken {n k : Nat}
    (h : ∀ i < k, d.get? (dir ++ [start ++ Text.ofNat (n + i)]) ≠ none) :
    k ≤ d.entries.length := by
  have hinjective : Function.Injective fun i => dir ++ [start ++ Text.ofNat (n + i)] := by
    intro i j hij
    have hname := List.singleton_inj.1 (List.append_cancel_left hij)
    exact Nat.add_left_cancel (Text.ofNat_injective (List.append_cancel_left hname))
  have hsubset : (List.range k).map (fun i => dir ++ [start ++ Text.ofNat (n + i)]) ⊆
      d.entries.map (·.1) := by
    intro p hp
    obtain ⟨i, hi, rfl⟩ := List.mem_map.1 hp
    obtain ⟨e, he⟩ := Option.ne_none_iff_exists'.1 (h i (List.mem_range.1 hi))
    exact List.mem_map.2 ⟨_, mem_entries_of_get? (List.concat_ne_nil _ _) he, rfl⟩
  have hlength := (List.nodup_range.map hinjective).length_le_of_subset hsubset
  rwa [List.length_map, List.length_map, List.length_range] at hlength

/-- The search ends at a free number, or all numbers that were tried are taken. -/
theorem freeNumber_cases (d : Disk) (dir : Place) (start : Text) (tries n : Nat) :
    d.get? (dir ++ [start ++ Text.ofNat (d.freeNumber dir start tries n)]) = none ∨
      d.freeNumber dir start tries n = n + tries ∧
        ∀ i < tries, d.get? (dir ++ [start ++ Text.ofNat (n + i)]) ≠ none := by
  induction tries generalizing n with
  | zero => exact .inr ⟨rfl, fun i hi => absurd hi (Nat.not_lt_zero i)⟩
  | succ tries ih =>
    rw [freeNumber]
    split
    · rename_i hfree
      exact .inl hfree
    · rename_i htaken
      refine (ih (n + 1)).imp_right fun ⟨hlast, hothers⟩ => ⟨by omega, fun i hi => ?_⟩
      cases i with
      | zero => exact htaken
      | succ i =>
        rw [← Nat.add_assoc, Nat.add_right_comm]
        exact hothers i (by omega)

/-- **There is a free number**, whichever was drawn. -/
theorem get?_freeNumber (d : Disk) (dir : Place) (start : Text) (n : Nat) :
    d.get? (dir ++ [start ++ Text.ofNat (d.freeNumber dir start d.entries.length n)]) = none := by
  rcases d.freeNumber_cases dir start d.entries.length n with hfree | ⟨hlast, htaken⟩
  · exact hfree
  · by_contra hend
    rw [hlast] at hend
    have hall : ∀ i < d.entries.length + 1,
        d.get? (dir ++ [start ++ Text.ofNat (n + i)]) ≠ none := by
      intro i hi
      rcases Nat.lt_succ_iff_lt_or_eq.1 hi with hi | rfl
      · exact htaken i hi
      · exact hend
    exact Nat.not_succ_le_self _ (length_le_of_taken hall)

/-- In a directory a new file can be made. -/
theorem exists_createTemp {path : Text} (h : d.lookup true path = .found dir .directory)
    (start : Text) (drawn : Nat) (content : Text) :
    ∃ name p, p ≠ [] ∧ d.get? p = none ∧
      d.createTemp path start drawn content = .ok (name, p, d.put p (.file content)) := by
  rw [createTemp, h]
  exact ⟨_, _, List.concat_ne_nil _ dir, get?_freeNumber d dir start drawn, rfl⟩

/-! ## Files that are moved -/

/-- What was put where nothing stood can be taken away again. -/
theorem remove_put (hp : p ≠ []) (h : d.get? p = none) (e : DiskEntry) :
    (d.put p e).remove p = d := by
  have hnone : ∀ x ∈ d.entries, (x.1 != p) = true := by
    intro x hx
    rw [get?, if_neg (mt List.isEmpty_iff.1 hp), Option.map_eq_none_iff] at h
    exact bne_iff_ne.2 fun heq => List.find?_eq_none.1 h x hx (beq_iff_eq.2 heq)
  have hentries : ((p, e) :: d.entries.filter (·.1 != p)).filter (·.1 != p) = d.entries := by
    rw [List.filter_cons_of_neg (by simp), List.filter_filter]
    refine (List.filter_congr fun x hx => ?_).trans (List.filter_eq_self.2 hnone)
    rw [Bool.and_self]
  rw [remove, put, hentries]

/-- **A new file that is moved** leaves the disk as if it had been written there. -/
theorem replace_put {target content : Text} (hp : p ≠ []) (hnew : d.get? p = none)
    (hlook : (d.put p (.file content)).lookup false (withoutSlash target) =
      (d.put p (.file content)).arrivalAt q)
    (hq : (d.put p (.file content)).get? q ≠ some .directory)
    (hslash : Text.endsWith target "/" = false) (path : Text) :
    (d.put p (.file content)).replace path p content target = .ok (d.put q (.file content)) := by
  rw [replace, hlook, arrivalAt, hslash]
  cases hget : (d.put p (.file content)).get? q with
  | none =>
    dsimp only
    rw [if_neg Bool.false_ne_true, remove_put hp hnew]
  | some e =>
    cases e with
    | directory => exact absurd hget hq
    | file old =>
      dsimp only
      rw [if_neg Bool.false_ne_true, remove_put hp hnew]
    | link target =>
      dsimp only
      rw [if_neg Bool.false_ne_true, remove_put hp hnew]

/-! ## Names at the end of a path -/

section Last

variable {rooted : Bool} {cs : List Text} {c : Text}

/-- An open way leads on from a directory. -/
theorem LeadsTo.append {ns : List Text} (h : d.LeadsTo rooted cs dir) (hopen : d.Open dir ns)
    (hns : ∀ c ∈ ns, Nameable c) : d.LeadsTo rooted (cs ++ ns) (dir ++ ns) := by
  refine ⟨List.forall_mem_append.2 ⟨h.part, fun c hc => (hns c hc).toPart⟩, ?_⟩
  by_cases hne : ns = []
  · rw [hne, List.append_nil, List.append_nil]
    exact h.resolve
  · obtain ⟨left, hleft⟩ := resolve_append hne h.resolve true
    have hdescend := hopen.descend hns true []
    rw [List.append_nil, descend_nil, hopen ns (List.prefix_refl ns)] at hdescend
    rw [hleft, resolve_of_descend hdescend (by simp)]
    rfl

/-- In a directory a name is seen, be it a link unless those are followed. -/
theorem resolve_last {follow : Bool} (hdir : d.get? dir = some .directory) (hc : Nameable c)
    (hlink : follow = true → ∀ target, d.get? (dir ++ [c]) ≠ some (.link target)) (left : Nat) :
    d.resolve follow left dir [c] = d.arrivalAt (dir ++ [c]) := by
  have hend : d.descend follow dir [c] = d.arrivalAt (dir ++ [c]) := by
    rw [descend_nameable hdir hc, arrivalAt]
    cases hget : d.get? (dir ++ [c]) with
    | none => rw [enter, hget]; rfl
    | some e => exact enter_last hget fun hfollow target he => hlink hfollow target (he ▸ hget)
  refine resolve_of_descend hend (fun link target rest hat => ?_) left
  rw [arrivalAt] at hat
  split at hat <;> cases hat

theorem LeadsTo.resolve_last (h : d.LeadsTo rooted cs dir) (hc : Nameable c)
    (hlink : ∀ target, d.get? (dir ++ [c]) ≠ some (.link target)) :
    d.resolve true linkLimit (d.start rooted) (cs ++ [c]) = d.arrivalAt (dir ++ [c]) := by
  obtain ⟨left, hleft⟩ := resolve_append (List.cons_ne_nil c []) h.resolve true
  exact hleft.trans (Disk.resolve_last h.get? hc (fun _ => hlink) left)

theorem LeadsTo.lookup_last (h : d.LeadsTo rooted cs dir) (hc : Nameable c)
    (ha : Admissible (Path.ofComponents rooted (cs ++ [c]))) :
    d.lookup false (Path.ofComponents rooted (cs ++ [c])) = d.arrivalAt (dir ++ [c]) := by
  have hlast : ∀ x ∈ [] ++ [c], Path.Part x := List.forall_mem_singleton.2 hc.toPart
  obtain ⟨left, hleft⟩ := h.lookup hlast ha false
  exact hleft.trans (Disk.resolve_last h.get? hc (by simp) left)

/-- A path with one more name behind those that lead to a directory is refused on every disk, or
on every disk the name is seen there. -/
theorem refused_or_seen {path : Text} (hc : Path.Plain c)
    (hparts : Path.components path = cs ++ [c]) (hend : Text.endsWith path "/" = false) :
    (∃ cause, cause ≠ .missing ∧ ∀ (d : Disk) (dir : Place),
      d.LeadsTo (Path.isAbsolute path) cs dir → d.lookup false path = .failed cause) ∨
    ∀ (d : Disk) (dir : Place), d.LeadsTo (Path.isAbsolute path) cs dir →
      d.lookup false path = d.arrivalAt (dir ++ [c]) := by
  have hne : ¬ path.isEmpty = true := by
    intro hempty
    rw [List.isEmpty_iff.1 hempty] at hparts
    exact List.concat_ne_nil c cs hparts.symm
  by_cases hzero : path.contains 0 = true
  · exact .inl ⟨.badName, by simp, fun d dir _ => by rw [Disk.lookup, if_neg hne, if_pos hzero]⟩
  by_cases hlong : longestPath ≤ path.length
  · exact .inl ⟨.nameTooLong, by simp, fun d dir _ => by
      rw [Disk.lookup, if_neg hne, if_neg hzero, if_pos hlong]⟩
  have hlook (d : Disk) (dir : Place) (h : d.LeadsTo (Path.isAbsolute path) cs dir) :
      ∃ left, d.lookup false path = d.resolve false left dir [c] := by
    obtain ⟨left, hleft⟩ := resolve_append (List.cons_ne_nil c []) h.resolve false
    refine ⟨left, ?_⟩
    rw [Disk.lookup, if_neg hne, if_neg hzero, if_neg hlong, hend, if_neg Bool.false_ne_true]
    dsimp only
    rw [List.append_nil, hparts, ← hleft]
    rfl
  by_cases hshort : c.length ≤ longestName
  · refine .inr fun d dir h => ?_
    obtain ⟨left, hleft⟩ := hlook d dir h
    exact hleft.trans (resolve_last h.get? ⟨hc, hshort⟩ (by simp) left)
  · refine .inl ⟨.nameTooLong, by simp, fun d dir h => ?_⟩
    obtain ⟨left, hleft⟩ := hlook d dir h
    refine hleft.trans (resolve_of_descend ?_ (by simp) left)
    rw [descend_cons h.get?, if_neg hc.notHere, if_neg hc.notAbove, if_pos (Nat.not_le.1 hshort)]

/-- A path that leads to a directory has the directory at its end, or a link. -/
theorem LeadsTo.get?_last {base : Place} (h : d.LeadsTo rooted cs dir) (hc : Nameable c)
    (hend : d.LeadsTo rooted (cs ++ [c]) base) :
    d.get? (dir ++ [c]) = some .directory ∧ base = dir ++ [c] ∨
      ∃ target, d.get? (dir ++ [c]) = some (.link target) := by
  by_cases hlink : ∃ target, d.get? (dir ++ [c]) = some (.link target)
  · exact .inr hlink
  · have hfound := (h.resolve_last hc (not_exists.1 hlink)).symm.trans hend.resolve
    rw [arrivalAt] at hfound
    split at hfound
    · rename_i e hget
      obtain ⟨rfl, rfl⟩ := Arrival.found.inj hfound
      exact .inl ⟨hget, rfl⟩
    · cases hfound

/-- **A file takes the place of what leads to a file**, and the way to its directory stays. -/
theorem LeadsTo.put_last {q : Place} {old : Text} (h : d.LeadsTo rooted cs dir) (hc : Nameable c)
    (hold : d.resolve true linkLimit (d.start rooted) (cs ++ [c]) = .found q (.file old))
    (content : Text) :
    d.get? (dir ++ [c]) ≠ some .directory ∧
      (d.put (dir ++ [c]) (.file content)).LeadsTo rooted cs dir := by
  cases hget : d.get? (dir ++ [c]) with
  | none => exact ⟨by simp, h.mono (extends_put (by simp) (by simp [hget]) _)⟩
  | some e =>
    cases e with
    | file old => exact ⟨by simp, h.mono (extends_put_file hget content)⟩
    | directory =>
      rw [h.resolve_last hc (by simp [hget]), arrivalAt, hget] at hold
      cases hold
    | link target =>
      obtain ⟨left, hleft⟩ := resolve_append (List.cons_ne_nil c []) h.resolve true
      rw [hleft] at hold
      have hlink : d.descend true dir [c] = .atLink dir target [] := by
        rw [descend_nameable h.get? hc, enter, hget]
        rfl
      refine ⟨by simp, h.part, resolve_put_link hget (fun left' p hp => ?_) h.resolve⟩
      obtain hfound | ⟨k, _, _, _, rfl, hlink', hafter⟩ := resolve_eq_cases hold (by simp)
      · rw [hlink] at hfound
        cases hfound
      · obtain ⟨rfl, rfl, rfl⟩ := Arrival.atLink.inj (hlink.symm.trans hlink')
        rw [List.dropLast_concat] at hp
        -- the link leads to a file, with however many links to spare
        have hdirectory := resolve_add hp k
        rw [Nat.add_comm, resolve_add hafter left'] at hdirectory
        cases hdirectory

/-- A file that was put at the end of a path is found there. -/
theorem LeadsTo.lookup_put {content : Text}
    (h : (d.put (dir ++ [c]) (.file content)).LeadsTo rooted cs dir) (hc : Nameable c)
    (ha : Admissible (Path.ofComponents rooted (cs ++ [c]))) :
    (d.put (dir ++ [c]) (.file content)).lookup true (Path.ofComponents rooted (cs ++ [c])) =
      .found (dir ++ [c]) (.file content) := by
  have hget : (d.put (dir ++ [c]) (.file content)).get? (dir ++ [c]) = some (.file content) := by
    rw [get?_put d (by simp), if_pos rfl]
  have hopen : (d.put (dir ++ [c]) (.file content)).Open dir [] := by
    intro xs hxs
    rw [List.prefix_nil.1 hxs, List.append_nil, h.get?]
  have hlast : ∀ x ∈ [] ++ [c], Nameable x := List.forall_mem_singleton.2 hc
  have hlook := h.lookup_of_open hopen hlast ha (by simp [hget]) true
  rwa [List.nil_append, arrivalAt, hget] at hlook

end Last

end Disk
end Tarjuman
