/-
# Directories under a new name

A directory that is moved to a new name and taken away there is gone as if it had been taken
away at once (`Disk.erase_move`), and the way to what lies beside it stays
(`Disk.Extends.erase`, `Disk.Extends.move`).  What stands at a path gets the new name or stays,
and then for another cause than that something is missing (`Disk.rename_cases`).  A directory
that is gone can be made again and is empty (`Disk.LeadsTo.make_last`).
-/

import Tarjuman.Proofs.LexemeBounds
import Tarjuman.Proofs.ReplacedFiles

namespace Tarjuman
namespace Disk

variable {d d' : Disk} {p q : Place}

/-! ## Taking away and moving -/

/-- The entry at a place after one was taken away with all below it. -/
theorem get?_erase (d : Disk) (hp : p ≠ []) (q : Place) :
    (d.erase p).get? q = if p <+: q then none else d.get? q := by
  by_cases hq : q = []
  · subst hq
    rw [if_neg fun h => hp (List.prefix_nil.1 h)]
    rfl
  have hget (d : Disk) : d.get? q = (d.entries.find? (·.1 == q)).map (·.2) :=
    if_neg (mt List.isEmpty_iff.1 hq)
  rw [hget, hget, erase, List.find?_filter]
  split
  · rename_i hbelow
    have hnone : d.entries.find? (fun x => (!p.isPrefixOf x.1) && x.1 == q) = none := by
      refine List.find?_eq_none.2 fun x _ hx => ?_
      obtain ⟨hx, heq⟩ := Bool.and_eq_true_iff.1 hx
      rw [eq_of_beq heq, List.isPrefixOf_iff_prefix.2 hbelow] at hx
      cases hx
    simpa using hnone
  · rename_i hother
    congr 2
    funext x
    by_cases hx : x.1 = q
    · have hfalse : p.isPrefixOf q = false :=
        Bool.eq_false_iff.2 fun h => hother (List.isPrefixOf_iff_prefix.1 h)
      simp [hx, hfalse]
    · simp [hx]

/-- What has nothing at a place or below stays when that is taken away. -/
theorem Extends.erase (h : d.Extends d') (hp : p ≠ [])
    (hfree : ∀ r e, d.get? r = some e → ¬ p <+: r) : d.Extends (d'.erase p) := by
  refine ⟨h.cwd, fun {r e} hr hpass => ?_⟩
  rw [get?_erase d' hp, if_neg (hfree r e hr), h.get? hr hpass]

/-- The entries at a place and below, under another one. -/
def moved (p q : Place) (entries : List (Place × DiskEntry)) : List (Place × DiskEntry) :=
  entries.filterMap fun (r, e) => (p.isPrefixOf? r).map fun rest => (q ++ rest, e)

theorem prefix_of_mem_moved {entries : List (Place × DiskEntry)} {x : Place × DiskEntry}
    (h : x ∈ moved p q entries) : q <+: x.1 := by
  obtain ⟨⟨r, e⟩, -, hx⟩ := List.mem_filterMap.1 h
  obtain ⟨rest, -, rfl⟩ := Option.map_eq_some_iff.1 hx
  exact List.prefix_append q rest

/-- What is found at the new place stood at the old one. -/
theorem find?_moved (entries : List (Place × DiskEntry)) :
    (moved p q entries).find? (·.1 == q) = (entries.find? (·.1 == p)).map fun x => (q, x.2) := by
  have hself : p.isPrefixOf? p = some [] :=
    Text.isPrefixOf?_eq_some_iff.2 (List.append_nil p).symm
  have hsame : (fun x : Place × DiskEntry =>
      ((p.isPrefixOf? x.1).map fun rest => (q ++ rest, x.2)).any (·.1 == q)) = (·.1 == p) := by
    funext ⟨r, e⟩
    cases hr : p.isPrefixOf? r with
    | none =>
      have hne : r ≠ p := by
        rintro rfl
        rw [hself] at hr
        cases hr
      simp [hne]
    | some rest =>
      obtain rfl := Text.isPrefixOf?_eq_some_iff.1 hr
      simp
  rw [moved, List.find?_filterMap]
  dsimp only
  rw [hsame]
  cases hfind : entries.find? (·.1 == p) with
  | none => rfl
  | some x =>
    have hx : x.1 = p := by simpa using List.find?_some hfind
    simp [hx, hself]

theorem move_eq (d : Disk) (p q : Place) :
    d.move p q = { (d.erase p).erase q with
      entries := moved p q d.entries ++ ((d.erase p).erase q).entries } := rfl

/-- **What was moved and is then taken away is gone** as if it had never been moved. -/
theorem erase_move (d : Disk) (p q : Place) : (d.move p q).erase q = (d.erase p).erase q := by
  have hmoved : (moved p q d.entries).filter (fun x => !q.isPrefixOf x.1) = [] := by
    refine List.filter_eq_nil_iff.2 fun x hx => ?_
    rw [List.isPrefixOf_iff_prefix.2 (prefix_of_mem_moved hx)]
    exact Bool.false_ne_true
  rw [move_eq, erase, erase]
  dsimp only
  rw [List.filter_append, hmoved, List.nil_append, List.filter_filter]
  simp only [Bool.and_self]

/-- What has nothing at either place stays when one is moved to the other. -/
theorem Extends.move (h : d.Extends d') (hp : p ≠ []) (hq : q ≠ [])
    (hp' : ∀ r e, d.get? r = some e → ¬ p <+: r) (hq' : ∀ r e, d.get? r = some e → ¬ q <+: r) :
    d.Extends (d'.move p q) := by
  have hrest : d.Extends ((d'.erase p).erase q) := (h.erase hp hp').erase hq hq'
  refine ⟨hrest.cwd, fun {r e} hr hpass => ?_⟩
  have hmoved : (moved p q d'.entries).find? (·.1 == r) = none := by
    refine List.find?_eq_none.2 fun x hx heq => hq' r e hr ?_
    exact eq_of_beq heq ▸ prefix_of_mem_moved hx
  have hsame : (d'.move p q).get? r = ((d'.erase p).erase q).get? r := by
    rw [move_eq, Disk.get?, Disk.get?, List.find?_append, hmoved, Option.none_or]
  exact hsame.trans (hrest.get? hr hpass)

/-- What stood at the one place stands at the other. -/
theorem get?_move_self (d : Disk) (hp : p ≠ []) (hq : q ≠ []) : (d.move p q).get? q = d.get? p := by
  have hgone : ((d.erase p).erase q).entries.find? (·.1 == q) = none := by
    refine List.find?_eq_none.2 fun x hx heq => ?_
    have hother : (!q.isPrefixOf x.1) = true := (List.mem_filter.1 hx).2
    rw [eq_of_beq heq, List.isPrefixOf_iff_prefix.2 (List.prefix_refl q)] at hother
    cases hother
  rw [get?, get?, if_neg (mt List.isEmpty_iff.1 hp), if_neg (mt List.isEmpty_iff.1 hq), move_eq,
    List.find?_append, hgone, Option.or_none, find?_moved, Option.map_map]
  rfl

/-! ## Renaming -/

section Rename

variable {path target : Text} {e : DiskEntry}
  (hfrom : d.lookup false (withoutSlash path) = .found p e)

include hfrom

theorem rename_of_failed {cause : FileCause}
    (hto : d.lookup false (withoutSlash target) = .failed cause) :
    d.rename path target = .error ⟨"rename", path ++ " " ++ target, cause⟩ := by
  rw [rename, hfrom]
  dsimp only
  rw [hto]

/-- **What stands at a path gets the new name**, or there is a cause why it stays.  No directory
gets a name below itself, and only a directory gets one from a path with a slash at its end. -/
theorem rename_cases (hto : d.lookup false (withoutSlash target) = d.arrivalAt q) :
    (∃ fault, d.rename path target = .error fault ∧ fault.cause ≠ .missing) ∨
      d.rename path target = .ok (d.move p q) ∧ (e = .directory → ¬ p <+: q) ∧
        (Text.endsWith path "/" = true → e = .directory) := by
  have hslash (hslashed : ¬ (e != .directory && (Text.endsWith path "/" ||
      Text.endsWith target "/")) = true) (hpath : Text.endsWith path "/" = true) :
      e = .directory := by
    by_contra hne
    exact hslashed (by simp [hne, hpath])
  rw [rename, hfrom]
  dsimp only
  rw [hto, arrivalAt]
  cases d.get? q with
  | some e' =>
    dsimp only
    split_ifs with hover hname hstays
    · exact .inl ⟨_, rfl, by simp⟩
    · exact .inl ⟨_, rfl, by simp⟩
    · exact .inl ⟨_, rfl, by simp⟩
    · obtain ⟨hne, hslashed⟩ := not_or.1 hstays
      exact .inr ⟨rfl, fun he => absurd he hne, hslash hslashed⟩
  | none =>
    dsimp only
    split_ifs with hname hslashed hbelow
    · exact .inl ⟨_, rfl, by simp⟩
    · exact .inl ⟨_, rfl, by simp⟩
    · exact .inl ⟨_, rfl, by simp⟩
    · exact .inr ⟨rfl, fun _ => mt List.isPrefixOf_iff_prefix.2 hbelow, hslash hslashed⟩

/-- A directory gets a name that is free. -/
theorem rename_of_vacant (hto : d.lookup false (withoutSlash target) = .vacant q)
    (hname : Path.isNameless path = false) (hpath : Text.endsWith path "/" = false)
    (htarget : Text.endsWith target "/" = false) (hbelow : ¬ p <+: q) :
    d.rename path target = .ok (d.move p q) := by
  rw [rename, hfrom]
  dsimp only
  rw [hto]
  dsimp only
  rw [hname, hpath, htarget, Bool.or_self, Bool.and_false, if_neg Bool.false_ne_true,
    if_neg Bool.false_ne_true, if_neg (mt List.isPrefixOf_iff_prefix.1 hbelow)]

end Rename

/-! ## Making again -/

/-- **A directory that is missing is made**, and nothing is in it. -/
theorem LeadsTo.make_last {rooted : Bool} {cs : List Text} {c : Text} {dir : Place}
    (h : d.LeadsTo rooted cs dir) (hc : Nameable c)
    (ha : Admissible (Path.ofComponents rooted (cs ++ [c])))
    (hgone : ∀ ns, d.get? (dir ++ [c] ++ ns) = none) :
    ∃ d', d.makeDirectories (Path.ofComponents rooted (cs ++ [c])) = (d', none) ∧ d.Extends d' ∧
      d'.LeadsTo rooted (cs ++ [c]) (dir ++ [c]) ∧
      ∀ ns, ns ≠ [] → d'.get? (dir ++ [c] ++ ns) = none := by
  have hclear : d.Clear dir [c] := by
    intro xs hxs e he
    rcases List.prefix_cons_iff.1 hxs with rfl | ⟨r, rfl, hr⟩
    · rw [List.append_nil, h.get?] at he
      exact (Option.some.inj he).symm
    · obtain rfl := List.prefix_nil.1 hr
      have hnone := hgone []
      rw [List.append_nil, he] at hnone
      cases hnone
  obtain ⟨d', hmake, hmade⟩ := made_makeDirectories h (List.forall_mem_singleton.2 hc)
    (List.concat_ne_nil c cs) ha hclear
  have hextends := hmade.extends hclear
  refine ⟨d', hmake, hextends,
    (h.mono hextends).append hmade.opened (List.forall_mem_singleton.2 hc), fun ns hns => ?_⟩
  rw [← hgone ns]
  refine hmade.other _ fun xs hxs heq => hns (List.length_eq_zero_iff.1 ?_)
  have hlen := hxs.length_le
  rw [List.append_assoc] at heq
  rw [← List.append_cancel_left heq, List.length_append] at hlen
  exact Nat.le_zero.1 (Nat.le_of_add_le_add_left hlen)

end Disk
end Tarjuman
