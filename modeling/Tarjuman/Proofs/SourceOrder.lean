/-
# The order of sources

The sources under a directory come in the order of their paths, byte by byte, and their
paths are clean already, so that the files that are loaded from them have the same paths
(`Target.pairwise_sources`).  A path is clean after it was cleaned once
(`Path.clean_clean`).  On a disk with one entry at each place no path comes twice
(`Target.nodup_sources`).
-/

import Tarjuman.Build.Target
import Tarjuman.Proofs.LexemeBounds
import Tarjuman.Proofs.PathComponents

namespace Tarjuman

namespace Text

theorem order_ne_gt_iff {a b : Text} : order a b ≠ .gt ↔ a ≤ b := by
  rw [order]
  split
  · rename_i h
    exact ⟨fun _ => List.le_of_lt h, fun _ => by simp⟩
  split
  · rename_i h
    exact ⟨fun hne => absurd rfl hne, fun hle => absurd h (List.not_lt.2 hle)⟩
  · rename_i h
    exact ⟨fun _ => List.not_lt.1 h, fun _ => by simp⟩

end Text

namespace Path

/-- The components, in reverse, are as cleaning leaves them: each was put before the
others. -/
def IsClean (rooted : Bool) : List Text → Prop
  | [] => True
  | c :: done => cleanStep rooted done c = c :: done ∧ IsClean rooted done

variable {rooted : Bool}

theorem isClean_cleanStep {done : List Text} (h : IsClean rooted done) (c : Text) :
    IsClean rooted (cleanStep rooted done c) := by
  rw [cleanStep.eq_def]
  split
  · exact h
  rename_i hhere
  split
  · rename_i habove
    split
    · split
      · trivial
      · rename_i hrooted
        refine ⟨?_, trivial⟩
        rw [cleanStep.eq_def, if_neg hhere, if_pos habove]
        exact if_neg hrooted
    · rename_i last r
      split
      · rename_i hlast
        refine ⟨?_, h⟩
        rw [cleanStep.eq_def, if_neg hhere, if_pos habove]
        exact if_pos hlast
      · exact h.2
  · rename_i habove
    refine ⟨?_, h⟩
    rw [cleanStep.eq_def, if_neg hhere, if_neg habove]

theorem isClean_foldl (cs : List Text) {done : List Text} (h : IsClean rooted done) :
    IsClean rooted (cs.foldl (cleanStep rooted) done) := by
  induction cs generalizing done with
  | nil => exact h
  | cons c r ih => exact ih (isClean_cleanStep h c)

/-- Clean components are left as they are. -/
theorem foldl_reverse_of_isClean {done : List Text} (h : IsClean rooted done) :
    done.reverse.foldl (cleanStep rooted) [] = done := by
  induction done with
  | nil => rfl
  | cons c r ih => rw [List.reverse_cons, List.foldl_append, ih h.2, List.foldl_cons, h.1]; rfl

/-- **Cleaning a clean path changes nothing.** -/
theorem clean_clean (p : Text) : clean (clean p) = clean p := by
  have hparts : ∀ c ∈ cleanComponents p, Part c := fun c => part_of_mem_cleanComponents
  have hfix : (cleanComponents p).foldl (cleanStep (isAbsolute p)) [] =
      (cleanComponents p).reverse := by
    have hclean : IsClean (isAbsolute p) (cleanComponents p).reverse := by
      rw [cleanComponents, List.reverse_reverse]
      exact isClean_foldl _ trivial
    have h := foldl_reverse_of_isClean hclean
    rwa [List.reverse_reverse] at h
  rcases List.eq_nil_or_concat (cleanComponents p) with hnil | ⟨r, c, hconcat⟩
  · -- only the root and `.` have no components
    rw [clean.eq_def p, hnil]
    cases isAbsolute p <;> decide
  · rw [List.concat_eq_append] at hconcat
    obtain ⟨hr, hc⟩ := List.forall_mem_append.1 (hconcat ▸ hparts)
    have hc := hc c List.mem_cons_self
    have hcomponents : components (clean p) = cleanComponents p := by
      rw [clean, hconcat, components_ofComponents _ hr hc]
    have hrooted : isAbsolute (clean p) = isAbsolute p := by
      rw [clean, hconcat, isAbsolute_ofComponents _ hr hc]
    rw [clean.eq_def (clean p), cleanComponents, hcomponents, hrooted, hfix,
      List.reverse_reverse, ← clean]

theorem clean_join {parts : List Text} (h : join parts ≠ []) :
    clean (join parts) = join parts := by
  rw [join] at h ⊢
  split
  · rename_i hnil
    rw [hnil] at h
    exact absurd rfl h
  · exact clean_clean _

end Path

/-- What is listed under a directory is clean and ends like a source. -/
theorem Target.clean_of_listed (root : Text) {below : List (Place × DiskEntry)} {path : Text}
    (h : path ∈ (below.filterMap fun x =>
      if x.2 = .directory then none else some (Path.join (root :: x.1))).filter
        (Text.endsWith · sourceExtension)) :
    Path.clean path = path ∧ Text.endsWith path sourceExtension = true := by
  obtain ⟨hmem, hends⟩ := List.mem_filter.1 h
  obtain ⟨x, -, hx⟩ := List.mem_filterMap.1 hmem
  split at hx
  · cases hx
  · obtain rfl := Option.some.inj hx
    refine ⟨Path.clean_join fun hnil => ?_, hends⟩
    rw [hnil] at hends
    exact absurd hends (by decide)

/-- **Sources come in the order of their paths**, and so do the files with these paths. -/
theorem Target.pairwise_sources {d : Disk} {root : Text} {paths : List Text}
    (h : Target.sources d root = .ok paths) : (paths.map Path.clean).Pairwise (· ≤ ·) := by
  rw [sources] at h
  split at h
  · obtain rfl := Except.ok.inj h
    rw [List.map_congr_left fun path hpath => (clean_of_listed root (List.mem_mergeSort.1 hpath)).1,
      List.map_id']
    have hle {a b : Text} : (Text.order a b != .gt) = true ↔ a ≤ b := by
      rw [bne_iff_ne]
      exact Text.order_ne_gt_iff
    refine (List.pairwise_mergeSort ?_ ?_ _).imp hle.1
    · exact fun a b c hab hbc => hle.2 (List.le_trans (hle.1 hab) (hle.1 hbc))
    · intro a b
      rw [Bool.or_eq_true]
      exact (List.le_total a b).imp hle.2 hle.2
  · obtain rfl := Except.ok.inj h
    split <;> simp
  · cases h
  · cases h
  · cases h

/-- Sources under a clean path are clean and end like one. -/
theorem Target.clean_of_mem_sources {d : Disk} {root path : Text} {paths : List Text}
    (hroot : Path.clean root = root) (h : Target.sources d root = .ok paths) (hpath : path ∈ paths) :
    Path.clean path = path ∧ Text.endsWith path sourceExtension = true := by
  rw [sources] at h
  split at h
  · obtain rfl := Except.ok.inj h
    exact clean_of_listed root (List.mem_mergeSort.1 hpath)
  · obtain rfl := Except.ok.inj h
    split at hpath
    · obtain rfl := List.mem_singleton.1 hpath
      exact ⟨hroot, by assumption⟩
    · cases hpath
  · cases h
  · cases h
  · cases h

/-- The sources under a directory, found and put in order. -/
theorem Target.sources_of_below {d : Disk} {root : Text} {p : Place} {paths : List Text}
    (hlookup : d.lookup false root = .found p .directory)
    (hbelow : ((d.below p).filterMap fun x =>
      if x.2 = .directory then none else some (Path.join (root :: x.1))).filter
        (Text.endsWith · sourceExtension) = paths)
    (hsorted : paths.Pairwise fun a b => (Text.order a b != .gt) = true) :
    sources d root = .ok paths := by
  rw [sources, hlookup]
  refine congrArg Except.ok ((congrArg (List.mergeSort · _) hbelow).trans ?_)
  exact List.mergeSort_of_pairwise hsorted

/-- Each place has one entry, and all names are such that entries can have. -/
structure Disk.Regular (d : Disk) : Prop where
  distinct : (d.entries.map (·.1)).Nodup
  named : ∀ x ∈ d.entries, ∀ c ∈ x.1, Path.Plain c

instance (c : Text) : Decidable (Path.Plain c) :=
  decidable_of_iff ((c ≠ [] ∧ Path.slash ∉ c) ∧ c ≠ Text.ofString "." ∧ c ≠ Text.ofString "..")
    ⟨fun h => ⟨⟨h.1.1, h.1.2⟩, h.2.1, h.2.2⟩,
      fun h => ⟨⟨h.ne_nil, h.noSlash⟩, h.notHere, h.notAbove⟩⟩

instance (d : Disk) : Decidable d.Regular :=
  decidable_of_iff ((d.entries.map (·.1)).Nodup ∧ ∀ x ∈ d.entries, ∀ c ∈ x.1, Path.Plain c)
    ⟨fun h => ⟨h.1, h.2⟩, fun h => ⟨h.distinct, h.named⟩⟩

/-- What is named below a place, and how. -/
theorem Disk.below_eq (d : Disk) (p : Place) :
    d.below p = d.entries.filterMap fun x =>
      ((p.isPrefixOf? x.1).filter (!·.isEmpty)).map fun rest => (rest, x.2) := by
  rw [below]
  refine congrArg (List.filterMap · d.entries) (funext fun x => ?_)
  obtain ⟨q, e⟩ := x
  dsimp only
  rcases p.isPrefixOf? q with _ | _ | ⟨c, rest⟩ <;> rfl

/-- The place of what is named below a place. -/
theorem Disk.place_of_below {p : Place} {x y : Place × DiskEntry}
    (h : ((p.isPrefixOf? x.1).filter (!·.isEmpty)).map (fun rest => (rest, x.2)) = some y) :
    y.1 ≠ [] ∧ x.1 = p ++ y.1 := by
  obtain ⟨rest, hrest, rfl⟩ := Option.map_eq_some_iff.1 h
  obtain ⟨hplace, hne⟩ := Option.filter_eq_some_iff.1 hrest
  exact ⟨by simpa using hne, Text.isPrefixOf?_eq_some_iff.1 hplace⟩

/-- Below a place of a regular disk the names are plain. -/
theorem Disk.Regular.named_below {d : Disk} (h : d.Regular) {p : Place} {x : Place × DiskEntry}
    (hx : x ∈ d.below p) : x.1 ≠ [] ∧ ∀ c ∈ x.1, Path.Plain c := by
  rw [below_eq] at hx
  obtain ⟨y, hy, hyx⟩ := List.mem_filterMap.1 hx
  obtain ⟨hne, hplace⟩ := place_of_below hyx
  exact ⟨hne, fun c hc => h.named y hy c (hplace ▸ List.mem_append_right p hc)⟩

/-- Below a place of a regular disk nothing is named twice. -/
theorem Disk.Regular.pairwise_below {d : Disk} (h : d.Regular) (p : Place) :
    (d.below p).Pairwise (·.1 ≠ ·.1) := by
  rw [below_eq]
  refine List.pairwise_filterMap.2 ((List.pairwise_map.1 h.distinct).imp ?_)
  intro x y hne b hb b' hb' heq
  exact hne ((place_of_below hb).2.trans (heq ▸ (place_of_below hb').2.symm))

/-- Different names below a directory make different paths. -/
theorem Path.eq_of_join_eq {dir : Text} {cs ds : List Text} (hcs : cs ≠ [] ∧ ∀ c ∈ cs, Plain c)
    (hds : ds ≠ [] ∧ ∀ c ∈ ds, Plain c) (h : join (dir :: cs) = join (dir :: ds)) : cs = ds := by
  have hcomponents {cs : List Text} (hcs : cs ≠ [] ∧ ∀ c ∈ cs, Plain c) :
      components (join (dir :: cs)) = cleanComponents dir ++ cs := by
    rw [join_cons dir hcs.1 hcs.2]
    obtain ⟨r, c, rfl⟩ := (List.eq_nil_or_concat cs).resolve_left hcs.1
    obtain ⟨hr, hc⟩ := List.forall_mem_append.1 (List.concat_eq_append ▸ hcs.2)
    rw [List.concat_eq_append, ← List.append_assoc]
    refine components_ofComponents _ (List.forall_mem_append.2 ⟨?_, ?_⟩)
      (hc c List.mem_cons_self).toPart
    · exact fun _ => part_of_mem_cleanComponents
    · exact fun c hc => (hr c hc).toPart
  have hsame : cleanComponents dir ++ cs = cleanComponents dir ++ ds := by
    rw [← hcomponents hcs, h, hcomponents hds]
  exact List.append_cancel_left hsame

/-- **No source comes twice.** -/
theorem Target.nodup_sources {d : Disk} {root : Text} {paths : List Text} (hd : d.Regular)
    (h : Target.sources d root = .ok paths) : paths.Nodup := by
  rw [sources] at h
  split at h
  · rename_i p hfound
    obtain rfl := Except.ok.inj h
    refine (List.mergeSort_perm _ _).nodup_iff.2 (List.Pairwise.filter _ ?_)
    refine List.pairwise_filterMap.2 ((hd.pairwise_below p).imp_of_mem ?_)
    intro x y hx hy hne b hb b' hb' heq
    dsimp only at hb hb'
    split at hb <;> cases hb
    split at hb' <;> cases hb'
    exact hne (Path.eq_of_join_eq (hd.named_below hx) (hd.named_below hy) heq)
  · obtain rfl := Except.ok.inj h
    split <;> simp
  · cases h
  · cases h
  · cases h

end Tarjuman
