/-
# Making directories

Below a directory that is there, everything that stands on the way to a directory to be
made is a directory or missing.  Then making it makes what is missing and changes
nothing else (`Disk.made_makeDirectories`).
-/

import Mathlib.Data.List.Induction
import Tarjuman.Proofs.DiskLookup

namespace Tarjuman
namespace Disk

/-- A name that an entry can have. -/
structure Nameable (c : Text) : Prop extends Path.Plain c where
  short : c.length ≤ longestName

/-- On the way from a place along names there are only directories. -/
def Open (d : Disk) (base : Place) (ns : List Text) : Prop :=
  ∀ xs, xs <+: ns → d.get? (base ++ xs) = some .directory

/-- On the way from a place along names nothing but directories stands. -/
def Clear (d : Disk) (base : Place) (ns : List Text) : Prop :=
  ∀ xs, xs <+: ns → ∀ e, d.get? (base ++ xs) = some e → e = .directory

variable {d d' : Disk} {base : Place} {ns : List Text} {c : Text}

theorem Open.tail (h : d.Open base (c :: ns)) : d.Open (base ++ [c]) ns := by
  intro xs hxs
  rw [List.append_assoc]
  exact h (c :: xs) ((List.prefix_cons_inj c).2 hxs)

theorem Clear.tail (h : d.Clear base (c :: ns)) : d.Clear (base ++ [c]) ns := by
  intro xs hxs e he
  rw [List.append_assoc] at he
  exact h (c :: xs) ((List.prefix_cons_inj c).2 hxs) e he

theorem Open.dropLast (h : d.Open base (ns ++ [c])) : d.Open base ns :=
  fun xs hxs => h xs (hxs.trans (List.prefix_append ns [c]))

theorem Clear.dropLast (h : d.Clear base (ns ++ [c])) : d.Clear base ns :=
  fun xs hxs => h xs (hxs.trans (List.prefix_append ns [c]))

theorem Open.cons (hbase : d.get? base = some .directory) (h : d.Open (base ++ [c]) ns) :
    d.Open base (c :: ns) := by
  intro xs hxs
  cases xs with
  | nil => rw [List.append_nil, hbase]
  | cons x xs =>
    obtain ⟨rfl, hrest⟩ := List.cons_prefix_cons.1 hxs
    have htail := h xs hrest
    rwa [List.append_assoc] at htail

theorem descend_nameable (hbase : d.get? base = some .directory) (hc : Nameable c) (follow : Bool)
    (rest : List Text) : d.descend follow base (c :: rest) = d.enter follow base c rest := by
  rw [descend_cons hbase, if_neg hc.notHere, if_neg hc.notAbove, if_neg (Nat.not_lt.2 hc.short)]

/-- An open way is gone to its end. -/
theorem Open.descend (h : d.Open base ns) (hns : ∀ c ∈ ns, Nameable c) (follow : Bool)
    (rest : List Text) :
    d.descend follow base (ns ++ rest) = d.descend follow (base ++ ns) rest := by
  induction ns generalizing base with
  | nil => rw [List.append_nil, List.nil_append]
  | cons c ns ih =>
    obtain ⟨hc, hns⟩ := List.forall_mem_cons.1 hns
    have hbase : d.get? base = some .directory := by
      have := h [] List.nil_prefix
      rwa [List.append_nil] at this
    have hnext := h [c] ((List.prefix_cons_inj c).2 List.nil_prefix)
    rw [List.cons_append, descend_nameable hbase hc, enter, hnext]
    show d.descend follow (base ++ [c]) (ns ++ rest) = _
    rw [ih h.tail hns, List.append_assoc]
    rfl

/-- **A clear way is open or ends where nothing is.** -/
theorem Clear.open_or_missing (h : d.Clear base ns) (hbase : d.get? base = some .directory)
    (hns : ∀ c ∈ ns, Nameable c) (follow : Bool) :
    d.Open base ns ∨
      (d.descend follow base ns = .vacant (base ++ ns) ∨
        d.descend follow base ns = .failed .missing) ∧
      ∀ n rest, d.descend follow base (ns ++ n :: rest) = .failed .missing := by
  induction ns generalizing base with
  | nil =>
    refine .inl fun xs hxs => ?_
    rw [List.prefix_nil.1 hxs, List.append_nil, hbase]
  | cons c ns ih =>
    obtain ⟨hc, hns⟩ := List.forall_mem_cons.1 hns
    rw [descend_nameable hbase hc, enter]
    cases hnext : d.get? (base ++ [c]) with
    | none =>
      refine .inr ⟨?_, fun n rest => ?_⟩
      · cases ns with
        | nil => exact .inl rfl
        | cons n rest => exact .inr rfl
      · rw [List.cons_append, descend_nameable hbase hc, enter, hnext]
        exact if_neg (by simp)
    | some e =>
      obtain rfl := h [c] ((List.prefix_cons_inj c).2 List.nil_prefix) e hnext
      rcases ih h.tail hnext hns with hopen | ⟨hend, hbehind⟩
      · exact .inl (.cons hbase hopen)
      · rw [List.append_assoc] at hend
        refine .inr ⟨hend, fun n rest => ?_⟩
        rw [List.cons_append, descend_nameable hbase hc, enter, hnext]
        exact hbehind n rest

/-- The second disk has the directories along the names and is otherwise as the first. -/
structure Made (d : Disk) (base : Place) (ns : List Text) (d' : Disk) : Prop where
  cwd : d'.cwd = d.cwd
  opened : d'.Open base ns
  other : ∀ q, (∀ xs, xs <+: ns → q ≠ base ++ xs) → d'.get? q = d.get? q

theorem Open.made (h : d.Open base ns) : d.Made base ns d := ⟨rfl, h, fun _ _ => rfl⟩

/-- Making directories keeps all passages. -/
theorem Made.extends (h : d.Made base ns d') (hclear : d.Clear base ns) : d.Extends d' := by
  refine ⟨h.cwd, fun {q e} hq _ => ?_⟩
  by_cases hway : ∃ xs, xs <+: ns ∧ q = base ++ xs
  · obtain ⟨xs, hxs, rfl⟩ := hway
    rw [h.opened xs hxs, hclear xs hxs e hq]
  · rw [h.other q fun xs hxs heq => hway ⟨xs, hxs, heq⟩, hq]

/-- One more directory. -/
theorem Made.concat (h : d.Made base ns d') {d'' : Disk} (hcwd : d''.cwd = d'.cwd)
    (hget : ∀ q, d''.get? q = if q = base ++ (ns ++ [c]) then some .directory else d'.get? q) :
    d.Made base (ns ++ [c]) d'' := by
  refine ⟨hcwd.trans h.cwd, fun xs hxs => ?_, fun q hq => ?_⟩
  · rw [hget]
    split
    · rfl
    · rename_i hne
      rcases List.prefix_concat_iff.1 hxs with rfl | hxs
      · exact absurd rfl hne
      · exact h.opened xs hxs
  · rw [hget, if_neg (hq _ (List.prefix_refl _))]
    exact h.other q fun xs hxs => hq xs (hxs.trans (List.prefix_append ns [c]))

theorem makeDirectories_of_found {path : Text} {p : Place}
    (h : d.lookup true path = .found p .directory) : d.makeDirectories path = (d, none) := by
  have hstat : d.stat path = .ok .directory := by
    rw [stat, entry?, h]
    rfl
  rw [makeDirectories, hstat]

theorem makeDirectories_of_missing {path : Text}
    (h : (∃ p, d.lookup true path = .vacant p) ∨ d.lookup true path = .failed .missing)
    (habove : (if above path ≠ [] then d.makeDirectories (above path) else (d, none)) =
      (d', none)) :
    d.makeDirectories path =
      match d'.makeDirectory path with
      | .ok d' => (d', none)
      | .error fault =>
        match d'.statLink path with
        | .ok .directory => (d', none)
        | _ => (d', some fault) := by
  have hstat : d.stat path = .error ⟨"stat", path, .missing⟩ := by
    rw [stat, entry?]
    rcases h with ⟨p, h⟩ | h <;> rw [h] <;> rfl
  rw [makeDirectories, hstat]
  dsimp only
  rw [dite_eq_ite, habove]
  rfl

/-- The arrival at a place that is not a link. -/
def arrivalAt (d : Disk) (p : Place) : Arrival :=
  match d.get? p with
  | some e => .found p e
  | none => .vacant p

section Below

variable {rooted : Bool} {cs : List Text}

/-- At the end of an open way a look-up sees what is there. -/
theorem LeadsTo.lookup_of_open (h : d.LeadsTo rooted cs base) (hopen : d.Open base ns)
    (hns : ∀ x ∈ ns ++ [c], Nameable x)
    (ha : Admissible (Path.ofComponents rooted (cs ++ (ns ++ [c]))))
    (hlink : ∀ target, d.get? (base ++ (ns ++ [c])) ≠ some (.link target)) (follow : Bool) :
    d.lookup follow (Path.ofComponents rooted (cs ++ (ns ++ [c]))) =
      d.arrivalAt (base ++ (ns ++ [c])) := by
  obtain ⟨left, hleft⟩ := h.lookup (fun x hx => (hns x hx).toPart) ha follow
  obtain ⟨hbefore, hlast⟩ := List.forall_mem_append.1 hns
  have hc : Nameable c := hlast c List.mem_cons_self
  have hend : d.descend follow base (ns ++ [c]) = d.arrivalAt (base ++ (ns ++ [c])) := by
    rw [hopen.descend hbefore, descend_nameable (hopen ns (List.prefix_refl ns)) hc, arrivalAt]
    rw [← List.append_assoc] at hlink ⊢
    cases hget : d.get? (base ++ ns ++ [c]) with
    | none =>
      rw [enter, hget]
      rfl
    | some e => exact enter_last hget fun _ target heq => hlink target (heq ▸ hget)
  have hnolink : ∀ dir target rest,
      d.arrivalAt (base ++ (ns ++ [c])) ≠ .atLink dir target rest := by
    intro dir target rest
    rw [arrivalAt]
    split <;> simp
  rw [hleft, resolve_of_descend hend hnolink]

/-- At the end of an open way a directory is made, or it is there. -/
theorem LeadsTo.makeDirectory_of_open (h : d.LeadsTo rooted cs base) (hopen : d.Open base ns)
    (hns : ∀ x ∈ ns ++ [c], Nameable x)
    (ha : Admissible (Path.ofComponents rooted (cs ++ (ns ++ [c]))))
    (hend : ∀ e, d.get? (base ++ (ns ++ [c])) = some e → e = .directory) :
    (∃ fault, d.makeDirectory (Path.ofComponents rooted (cs ++ (ns ++ [c]))) = .error fault ∧
        d.statLink (Path.ofComponents rooted (cs ++ (ns ++ [c]))) = .ok .directory ∧
        d.get? (base ++ (ns ++ [c])) = some .directory) ∨
      d.makeDirectory (Path.ofComponents rooted (cs ++ (ns ++ [c]))) =
        .ok (d.put (base ++ (ns ++ [c])) .directory) := by
  have hc : Path.Part c := (hns c (List.mem_append_right ns List.mem_cons_self)).toPart
  have hwhole : withoutSlash (Path.ofComponents rooted (cs ++ (ns ++ [c]))) =
      Path.ofComponents rooted (cs ++ (ns ++ [c])) := by
    rw [← List.append_assoc]
    exact Path.withoutSlash_ofComponents rooted hc
  have hlook := h.lookup_of_open hopen hns ha (fun target heq => nomatch hend _ heq) false
  rw [arrivalAt] at hlook
  cases hget : d.get? (base ++ (ns ++ [c])) with
  | none =>
    rw [hget] at hlook
    refine .inr ?_
    rw [makeDirectory, hwhole, hlook]
  | some e =>
    obtain rfl := hend e hget
    rw [hget] at hlook
    refine .inl
      ⟨⟨"mkdir", Path.ofComponents rooted (cs ++ (ns ++ [c])), .alreadyThere⟩, ?_, ?_, rfl⟩
    · rw [makeDirectory, hwhole, hlook]
    · rw [statLink, entry?, hlook]
      rfl

/-- **Making a directory makes what is missing above it** and changes nothing else. -/
theorem made_makeDirectories (h : d.LeadsTo rooted cs base) (hns : ∀ x ∈ ns, Nameable x)
    (hne : cs ++ ns ≠ []) (ha : Admissible (Path.ofComponents rooted (cs ++ ns)))
    (hclear : d.Clear base ns) :
    ∃ d', d.makeDirectories (Path.ofComponents rooted (cs ++ ns)) = (d', none) ∧
      d.Made base ns d' := by
  have hbase : d.Open base [] := by
    intro xs hxs
    rw [List.prefix_nil.1 hxs, List.append_nil, h.get?]
  -- from the directory down, since a call goes up until it meets one that is there
  induction ns using List.reverseRecOn with
  | nil =>
    rw [List.append_nil] at hne ha ⊢
    exact ⟨d, makeDirectories_of_found (h.lookup_self hne ha), hbase.made⟩
  | append_singleton ns c ih =>
    obtain ⟨hbefore, hlast⟩ := List.forall_mem_append.1 hns
    have hc : Path.Part c := (hlast c List.mem_cons_self).toPart
    have hassoc : cs ++ (ns ++ [c]) = (cs ++ ns) ++ [c] := (List.append_assoc ..).symm
    obtain ⟨d₁, habove, hmade⟩ : ∃ d₁, (if above (Path.ofComponents rooted (cs ++ (ns ++ [c]))) ≠ []
        then d.makeDirectories (above (Path.ofComponents rooted (cs ++ (ns ++ [c]))))
        else (d, none)) = (d₁, none) ∧ d.Made base ns d₁ := by
      rw [hassoc] at ha ⊢
      have habove : above (Path.ofComponents rooted ((cs ++ ns) ++ [c])) =
          if (cs ++ ns).isEmpty then [] else Path.ofComponents rooted (cs ++ ns) :=
        Path.above_ofComponents rooted hc
      by_cases hempty : cs ++ ns = []
      · obtain ⟨-, rfl⟩ := List.append_eq_nil_iff.1 hempty
        rw [habove, hempty]
        exact ⟨d, rfl, hbase.made⟩
      · obtain ⟨d₁, hmake, hmade⟩ := ih hbefore hempty (ha.dropLast hempty) hclear.dropLast
        have hpath : Path.ofComponents rooted (cs ++ ns) ≠ [] :=
          Path.ofComponents_ne_nil_of_parts rooted
            (List.forall_mem_append.2 ⟨h.part, fun x hx => (hbefore x hx).toPart⟩)
        rw [if_neg (mt List.isEmpty_iff.1 hempty)] at habove
        rw [habove, if_pos hpath]
        exact ⟨d₁, hmake, hmade⟩
    rcases hclear.open_or_missing h.get? hns true with hopen | ⟨hend, -⟩
    · have hend := hopen _ (List.prefix_refl (ns ++ [c]))
      have hfound := h.lookup_of_open hopen.dropLast hns ha (by simp [hend]) true
      rw [arrivalAt, hend] at hfound
      exact ⟨d, makeDirectories_of_found hfound, hopen.made⟩
    · obtain ⟨left, hleft⟩ := h.lookup (fun x hx => (hns x hx).toPart) ha true
      have hmissing :
          (∃ p, d.lookup true (Path.ofComponents rooted (cs ++ (ns ++ [c]))) = .vacant p) ∨
          d.lookup true (Path.ofComponents rooted (cs ++ (ns ++ [c]))) = .failed .missing := by
        rw [hleft]
        rcases hend with hend | hend
        · exact .inl ⟨_, resolve_of_descend hend nofun left⟩
        · exact .inr (resolve_of_descend hend nofun left)
      -- the last directory is still as it was: what was made stands above it
      have hsame : d₁.get? (base ++ (ns ++ [c])) = d.get? (base ++ (ns ++ [c])) := by
        refine hmade.other _ fun xs hxs heq => ?_
        have hlen := hxs.length_le
        rw [← List.append_cancel_left heq, List.length_append, List.length_singleton] at hlen
        omega
      have hstep := (h.mono (hmade.extends hclear.dropLast)).makeDirectory_of_open hmade.opened hns ha
        (hsame ▸ hclear _ (List.prefix_refl _))
      rw [makeDirectories_of_missing hmissing habove]
      rcases hstep with ⟨fault, hmake, hstat, hget⟩ | hmake
      · rw [hmake, hstat]
        refine ⟨d₁, rfl, hmade.concat rfl fun q => ?_⟩
        split
        · rename_i hq
          rw [hq, hget]
        · rfl
      · rw [hmake]
        exact ⟨_, rfl, hmade.concat rfl (get?_put d₁ (by simp) .directory)⟩

end Below
end Disk
end Tarjuman
