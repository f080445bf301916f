/-
# A store is a map

A store whose directory was empty at first holds exactly what a map holds that is given the
same payloads (`Store.Mirrors`).  Keeping a payload sets the map at its key and nowhere else
(`Store.Mirrors.put`).  Dropping all gives the directory another name, takes it away there and
makes it again; that empties the map, or it fails and nothing has changed
(`Store.Mirrors.clear`).  What is made again is where it was, as long as the way to the directory
above does not lead through the store (`Store.Sited`).

What the map holds after some operations is what was kept last since it was last emptied
(`StoreOp.mapAfter_eq_some_iff`).
-/

import Mathlib.Logic.Function.Basic
import Tarjuman.Proofs.RenamedDirectories
import Tarjuman.Proofs.StoreEntries

namespace Tarjuman

theorem Disk.Open.mono {d d' : Disk} {base : Place} {ns : List Text} (h : d.Open base ns)
    (hd : d.Extends d') : d'.Open base ns :=
  fun xs hxs => hd.get? (h xs hxs) rfl

namespace Store

open Disk (Nameable Admissible)

variable {st : Store} {d d' : Disk} {base : Place} {key : Digest} {stamp : Nat}

/-! ## Where a store lies -/

/-- The store has a name in a directory above, its path is clean but for slashes at the end, and
the way to the directory above can be gone without the entries whose names start with that name:
the store itself and what it is called before it is taken away. -/
structure Sited (st : Store) (d : Disk) (cs : List Text) (c : Text) (above : Place) : Prop where
  clean : Disk.withoutSlash st.dir = Path.clean st.dir
  components : Path.cleanComponents st.dir = cs ++ [c]
  nameable : Nameable c
  beside : ∃ d₀ : Disk, d₀.LeadsTo (Path.isAbsolute st.dir) cs above ∧ d₀.Extends d ∧
    ∀ q e, d₀.get? q = some e → ∀ x, ¬ above ++ [c ++ x] <+: q

/-- The store can be taken away and made again. -/
def Replaceable (st : Store) (d : Disk) : Prop := ∃ cs c above, st.Sited d cs c above

theorem Sited.mono {cs : List Text} {c : Text} {above : Place} (h : st.Sited d cs c above)
    (hd : d.Extends d') : st.Sited d' cs c above := by
  obtain ⟨d₀, hleads, hextends, hfree⟩ := h.beside
  exact ⟨h.clean, h.components, h.nameable, d₀, hleads, hextends.trans hd, hfree⟩

theorem Replaceable.mono (h : st.Replaceable d) (hd : d.Extends d') : st.Replaceable d' := by
  obtain ⟨cs, c, above, hsited⟩ := h
  exact ⟨cs, c, above, hsited.mono hd⟩

/-- A name with the old ending is a name. -/
theorem plain_append_oldEnding {c : Text} (hc : Path.slash ∉ c) (stamp : Nat) :
    Path.Plain (c ++ oldEnding stamp) := by
  have hlong : 5 ≤ (c ++ oldEnding stamp).length := by
    rw [List.length_append, oldEnding, List.length_append]
    exact Nat.le_add_left_of_le (Nat.le_add_right 5 _)
  have hslash : Path.slash ∉ oldEnding stamp :=
    List.not_mem_append (by decide) (Text.not_mem_digitsOnto (by decide) stamp List.not_mem_nil)
  refine ⟨⟨fun h => ?_, List.not_mem_append hc hslash⟩, fun h => ?_, fun h => ?_⟩
  all_goals
    rw [h] at hlong
    exact absurd hlong (by decide)

theorem plain_oldEnding (stamp : Nat) : Path.Plain (oldEnding stamp) :=
  plain_append_oldEnding (c := []) List.not_mem_nil stamp

theorem withoutSlash_oldPath (st : Store) (stamp : Nat) :
    Disk.withoutSlash (st.oldPath stamp) = st.oldPath stamp :=
  Path.withoutSlash_append st.dir (plain_oldEnding stamp).toPart

theorem not_endsWith_oldPath (st : Store) (stamp : Nat) :
    Text.endsWith (st.oldPath stamp) "/" = false :=
  Path.not_endsWith_append st.dir (plain_oldEnding stamp).toPart

namespace Sited

variable {cs : List Text} {c : Text} {above : Place}

theorem leads (h : st.Sited d cs c above) : d.LeadsTo (Path.isAbsolute st.dir) cs above := by
  obtain ⟨d₀, hleads, hextends, -⟩ := h.beside
  exact hleads.mono hextends

theorem withoutSlash_dir (h : st.Sited d cs c above) :
    Disk.withoutSlash st.dir = Path.ofComponents (Path.isAbsolute st.dir) (cs ++ [c]) := by
  rw [h.clean, Path.clean, h.components]

theorem components_dir (h : st.Sited d cs c above) : Path.components st.dir = cs ++ [c] := by
  rw [← Path.components_withoutSlash, h.withoutSlash_dir]
  exact Path.components_ofComponents _ h.leads.part h.nameable.toPart

/-- The path has no slash at its end, or the old path leads into the store. -/
theorem dir_cases (h : st.Sited d cs c above) (stamp : Nat) :
    st.dir = Path.ofComponents (Path.isAbsolute st.dir) (cs ++ [c]) ∨
      Text.endsWith st.dir "/" = true ∧
        Path.components (st.oldPath stamp) = cs ++ [c] ++ [oldEnding stamp] := by
  obtain ⟨t, hdir, hslashes⟩ := Path.exists_slashes st.dir
  have hold := Path.components_withoutSlash st.dir
  rw [h.components_dir] at hold
  cases t with
  | nil => exact .inl (hdir.trans ((List.append_nil _).trans h.withoutSlash_dir))
  | cons b t =>
    obtain ⟨rfl, ht⟩ := List.forall_mem_cons.1 hslashes
    refine .inr ⟨List.isSuffixOf_iff_suffix.2 ?_, ?_⟩
    · obtain ⟨r, b, hlast⟩ := List.eq_nil_or_concat (Path.slash :: t) |>.resolve_left nofun
      rw [List.concat_eq_append] at hlast
      rw [hlast] at hdir hslashes
      obtain rfl := hslashes b (List.mem_append_right r List.mem_cons_self)
      exact ⟨_, (hdir.trans (List.append_assoc ..).symm).symm⟩
    · rw [oldPath, hdir, List.append_assoc, List.cons_append, Path.components_append, hold,
        Path.components_slashes ht, Path.components_part (plain_oldEnding stamp).toPart]

/-- Without a slash at the end the old path has another name in the directory above. -/
theorem oldPath_eq (hdir : st.dir = Path.ofComponents (Path.isAbsolute st.dir) (cs ++ [c]))
    (stamp : Nat) : st.oldPath stamp =
      Path.ofComponents (Path.isAbsolute st.dir) (cs ++ [c ++ oldEnding stamp]) := by
  rw [oldPath, Path.ofComponents_concat, ← List.append_assoc, ← Path.ofComponents_concat, ← hdir]

theorem isAbsolute_oldPath (h : st.Sited d cs c above) (stamp : Nat) :
    Path.isAbsolute (st.oldPath stamp) = Path.isAbsolute st.dir := by
  refine Path.isAbsolute_append (fun hnil => ?_) _
  have hparts := h.components_dir
  rw [hnil] at hparts
  exact List.concat_ne_nil c cs hparts.symm

theorem not_nameless (h : st.Sited d cs c above) : Path.isNameless st.dir = false := by
  simp [Path.isNameless, h.components_dir, h.nameable.notHere, h.nameable.notAbove]

/-- The old name does not lie below the directory of the store. -/
theorem not_prefix_old (above : Place) (c : Text) (stamp : Nat) :
    ¬ above ++ [c] <+: above ++ [c ++ oldEnding stamp] := by
  rw [List.prefix_append_right_inj, List.cons_prefix_cons]
  rintro ⟨heq, -⟩
  exact (plain_oldEnding stamp).ne_nil (List.self_eq_append_right.1 heq)

/-- At the path stands a directory, or a link that leads to one. -/
theorem exists_lookup (h : st.Sited d cs c above)
    (hleads : d.LeadsTo (Path.isAbsolute st.dir) (Path.cleanComponents st.dir) base)
    (hadm : Admissible (Path.clean st.dir)) :
    ∃ e, d.lookup false (Disk.withoutSlash st.dir) = .found (above ++ [c]) e ∧
      d.get? (above ++ [c]) = some e ∧ (e = .directory ∧ base = above ++ [c] ∨ e ≠ .directory) := by
  have hlook := h.leads.lookup_last h.nameable (by rwa [← h.components, ← Path.clean])
  rw [← h.withoutSlash_dir, Disk.arrivalAt] at hlook
  rcases h.leads.get?_last h.nameable (h.components ▸ hleads) with ⟨hget, hbase⟩ | ⟨target, hget⟩
  · rw [hget] at hlook
    exact ⟨_, hlook, hget, .inl ⟨rfl, hbase⟩⟩
  · rw [hget] at hlook
    exact ⟨_, hlook, hget, .inr (by simp)⟩

end Sited

/-! ## The store and the map -/

/-- The store holds what the map holds, and nothing else. -/
structure Mirrors (st : Store) (base : Place) (m : Digest → Option Payload) (d : Disk) : Prop where
  tidy : st.Tidy base (fun key p => m key = some p) d
  opened : ∀ key p, m key = some p → d.Open base (folderNames key)
  stored : ∀ key p, m key = some p →
    d.get? (base ++ (folderNames key ++ [fileName key])) = some (.file (Packed.encode p))
  fits : ∀ key p, m key = some p → p.Fits ∧ p.schema = BuildOptions.schema

variable {m : Digest → Option Payload}

theorem Tidy.mirrors (h : st.Tidy base (fun _ p => none = some p) d) :
    st.Mirrors base (fun _ => none) d :=
  ⟨h, nofun, nofun, nofun⟩

theorem Fresh.mirrors (h : st.Fresh d) : ∃ base, st.Mirrors base (fun _ => none) d := by
  obtain ⟨base, htidy⟩ := h.tidy fun _ p => none = some p
  exact ⟨base, htidy.mirrors⟩

/-- What is known of a payload that is set and of the others is known of all. -/
theorem forall_of_update_eq_some {motive : Digest → Payload → Prop} {p : Payload}
    (hself : motive key p) (hother : ∀ k q, k ≠ key → m k = some q → motive k q) :
    ∀ k q, Function.update m key (some p) k = some q → motive k q := by
  intro k q hq
  by_cases hk : k = key
  · subst hk
    rw [Function.update_self] at hq
    exact Option.some.inj hq ▸ hself
  · rw [Function.update_of_ne hk] at hq
    exact hother k q hk hq

namespace Mirrors

/-- **What the map has is found, and nothing else.** -/
theorem get (h : st.Mirrors base m d) (hkey : key.IsFull) : st.get d key = .ok (m key) := by
  cases hm : m key with
  | none =>
    rcases get_of_tidy h.tidy hkey (h.fits key) with hget | ⟨p, hp, -⟩
    · exact hget
    · rw [hm] at hp
      cases hp
  | some p =>
    have hlook := h.tidy.lookup_entryPath hkey (h.opened key p hm)
    rw [Disk.arrivalAt, h.stored key p hm] at hlook
    exact get_of_found hlook (h.fits key p hm).1 (h.fits key p hm).2

/-- **Keeping a payload sets the map at its key.** -/
theorem put (h : st.Mirrors base m d) (hkey : key.IsFull) {p : Payload} (hp : p.Fits)
    (drawn : Nat) :
    ∃ d', st.put d key p drawn = (d', none) ∧ d.Extends d' ∧
      st.Mirrors base
        (Function.update m key (some { p with schema := BuildOptions.schema })) d' := by
  obtain ⟨d₁, hmade, hput⟩ := put_of_tidy h.tidy hkey p drawn
  have htidy := h.tidy.made hmade
  have hextends := hmade.extends (h.tidy.clear key)
  have hextends' := htidy.extends_put key (Packed.encode { p with schema := BuildOptions.schema })
  refine ⟨_, hput, hextends.trans hextends', ?_, ?_, ?_, ?_⟩
  · refine htidy.put_entry (Function.update_self ..) fun k q hk hq => ?_
    rw [Function.update_of_ne hk, hq]
  · exact forall_of_update_eq_some (hmade.opened.mono hextends')
      fun k q _ hq => (h.opened k q hq).mono (hextends.trans hextends')
  · refine forall_of_update_eq_some ?_ fun k q hk hq => ?_
    · rw [Disk.get?_put _ (by simp), if_pos rfl]
    · rw [Disk.get?_put _ (by simp),
        if_neg fun heq => hk (eq_of_names_eq (List.append_cancel_left heq)), ← h.stored k q hq]
      -- a file lies deeper than the directories that were made
      refine hmade.other _ fun xs hxs heq => ?_
      have hlen := hxs.length_le
      rw [← List.append_cancel_left heq] at hlen
      simp [folderNames] at hlen
  · exact forall_of_update_eq_some ⟨⟨hp.fragments, hp.fragment, hp.reports, hp.report⟩, rfl⟩
      fun k q _ hq => h.fits k q hq

end Mirrors

/-! ## Dropping all -/

theorem clear_of_error {fault : FileFault} (h : d.rename st.dir (st.oldPath stamp) = .error fault)
    (hcause : fault.cause ≠ .missing) : st.clear d stamp = (d, some fault) := by
  rw [Store.clear, h]
  exact if_neg hcause

section Clear

variable {cs : List Text} {c : Text} {above : Place} (h : st.Mirrors base m d)
  (hsited : st.Sited d cs c above)

include h hsited

/-- With a slash at the end of its path a store cannot be dropped: its new name would be
below the old one. -/
theorem exists_clear_error (hslash : Text.endsWith st.dir "/" = true)
    (hold : Path.components (st.oldPath stamp) = cs ++ [c] ++ [oldEnding stamp]) :
    ∃ fault, st.clear d stamp = (d, some fault) := by
  obtain ⟨e, hfrom, -, he⟩ := hsited.exists_lookup h.tidy.leads h.tidy.admissible
  have hleads := h.tidy.leads
  rw [hsited.components, ← hsited.isAbsolute_oldPath stamp] at hleads
  rcases Disk.refused_or_seen (plain_oldEnding stamp) hold (st.not_endsWith_oldPath stamp) with
    ⟨cause, hcause, hrefused⟩ | hseen
  · have hto := hrefused d base hleads
    rw [← st.withoutSlash_oldPath] at hto
    exact ⟨_, clear_of_error (Disk.rename_of_failed hfrom hto) hcause⟩
  · have hto := hseen d base hleads
    rw [← st.withoutSlash_oldPath] at hto
    rcases Disk.rename_cases hfrom hto with ⟨fault, hrename, hcause⟩ | ⟨-, hbelow, honly⟩
    · exact ⟨fault, clear_of_error hrename hcause⟩
    · rcases he with ⟨rfl, rfl⟩ | he
      · exact absurd (List.prefix_append ..) (hbelow rfl)
      · exact absurd (honly hslash) he

variable (hdir : st.dir = Path.ofComponents (Path.isAbsolute st.dir) (cs ++ [c]))

include hdir

/-- When the store and what has the old path are gone, the directory is made again and is empty. -/
theorem exists_remade (stamp : Nat) :
    ∃ d', ((d.erase (above ++ [c])).erase (above ++ [c ++ oldEnding stamp])).makeDirectories st.dir =
        (d', none) ∧
      st.Mirrors (above ++ [c]) (fun _ => none) d' ∧ st.Sited d' cs c above := by
  obtain ⟨d₀, hleads, hextends, hfree⟩ := hsited.beside
  have hne : above ++ [c] ≠ [] := List.concat_ne_nil c above
  have hold : above ++ [c ++ oldEnding stamp] ≠ [] := List.concat_ne_nil _ above
  have hextends₁ : d₀.Extends ((d.erase (above ++ [c])).erase (above ++ [c ++ oldEnding stamp])) :=
    (hextends.erase hne fun q e hq => by simpa using hfree q e hq []).erase hold
      fun q e hq => hfree q e hq (oldEnding stamp)
  have hgone (ns : Place) : ((d.erase (above ++ [c])).erase
      (above ++ [c ++ oldEnding stamp])).get? ((above ++ [c]) ++ ns) = none := by
    rw [Disk.get?_erase _ hold]
    split
    · rfl
    · rw [Disk.get?_erase d hne, if_pos (List.prefix_append ..)]
  have hadm : Admissible (Path.ofComponents (Path.isAbsolute st.dir) (cs ++ [c])) := by
    rw [← hsited.components]
    exact h.tidy.admissible
  obtain ⟨d', hmake, hextends', hleads', hempty⟩ :=
    (hleads.mono hextends₁).make_last hsited.nameable hadm hgone
  refine ⟨d', hdir ▸ hmake, Tidy.mirrors ⟨?_, h.tidy.admissible, h.tidy.room, ?_⟩,
    hsited.clean, hsited.components, hsited.nameable, d₀, hleads, hextends₁.trans hextends', hfree⟩
  · rwa [hsited.components]
  · intro ns e hns he
    rw [hempty ns hns] at he
    cases he

/-- **Under its new name the store is taken away**, and its directory is there again, empty. -/
theorem clear_of_renamed
    (hrename : d.rename st.dir (st.oldPath stamp) =
      .ok (d.move (above ++ [c]) (above ++ [c ++ oldEnding stamp])))
    (hseen : ∀ (d' : Disk) (dir : Place), d'.LeadsTo (Path.isAbsolute st.dir) cs dir →
      d'.lookup false (st.oldPath stamp) = d'.arrivalAt (dir ++ [c ++ oldEnding stamp])) :
    ∃ d', st.clear d stamp = (d', none) ∧ st.Mirrors (above ++ [c]) (fun _ => none) d' ∧
      st.Sited d' cs c above := by
  obtain ⟨d', hmake, hmirrors, hsited'⟩ := exists_remade h hsited hdir stamp
  refine ⟨d', ?_, hmirrors, hsited'⟩
  obtain ⟨e, -, hget, -⟩ := hsited.exists_lookup h.tidy.leads h.tidy.admissible
  obtain ⟨d₀, hleads, hextends, hfree⟩ := hsited.beside
  have hne : above ++ [c] ≠ [] := List.concat_ne_nil c above
  have hold : above ++ [c ++ oldEnding stamp] ≠ [] := List.concat_ne_nil _ above
  have hmoved := hextends.move hne hold (fun q e hq => by simpa using hfree q e hq [])
    fun q e hq => hfree q e hq (oldEnding stamp)
  have hlook := hseen _ above (hleads.mono hmoved)
  rw [Disk.arrivalAt, Disk.get?_move_self d hne hold, hget] at hlook
  rw [Store.clear, hrename]
  dsimp only
  rw [Disk.removeAll, hlook]
  dsimp only
  rw [Disk.erase_move, hmake]

/-- The store gets its new name or keeps its old one, and then nothing changes; where nothing
has the new name, it gets it. -/
theorem clear_cases (stamp : Nat) :
    (∃ fault, st.clear d stamp = (d, some fault) ∧
      ∀ q, d.lookup false (st.oldPath stamp) ≠ .vacant q) ∨
    ∃ d', st.clear d stamp = (d', none) ∧ st.Mirrors (above ++ [c]) (fun _ => none) d' ∧
      st.Sited d' cs c above := by
  obtain ⟨e, hfrom, -, -⟩ := hsited.exists_lookup h.tidy.leads h.tidy.admissible
  have hname := plain_append_oldEnding hsited.nameable.noSlash stamp
  have hold : Path.components (st.oldPath stamp) = cs ++ [c ++ oldEnding stamp] := by
    rw [Sited.oldPath_eq hdir stamp]
    exact Path.components_ofComponents _ hsited.leads.part hname.toPart
  have hseen := Disk.refused_or_seen hname hold (st.not_endsWith_oldPath stamp)
  rw [hsited.isAbsolute_oldPath stamp] at hseen
  rcases hseen with ⟨cause, hcause, hrefused⟩ | hseen
  · have hto := hrefused d above hsited.leads
    have hrename : d.rename st.dir (st.oldPath stamp) = .error _ :=
      Disk.rename_of_failed hfrom (by rwa [withoutSlash_oldPath])
    exact .inl ⟨_, clear_of_error hrename hcause, fun q hq => by rw [hto] at hq; cases hq⟩
  · have hto := hseen d above hsited.leads
    rcases Disk.rename_cases hfrom ((congrArg _ (st.withoutSlash_oldPath stamp)).trans hto) with
      ⟨fault, hrename, hcause⟩ | ⟨hrename, -⟩
    · refine .inl ⟨fault, clear_of_error hrename hcause, fun q hq => ?_⟩
      have hfree : d.get? (above ++ [c ++ oldEnding stamp]) = none := by
        rw [hto, Disk.arrivalAt] at hq
        split at hq
        · cases hq
        · assumption
      rw [Disk.arrivalAt, hfree] at hto
      have hrenamed := Disk.rename_of_vacant hfrom (by rwa [withoutSlash_oldPath])
        hsited.not_nameless
        (by rw [hdir]; exact Path.not_endsWith_ofComponents _ hsited.nameable.toPart)
        (st.not_endsWith_oldPath stamp) (Sited.not_prefix_old above c stamp)
      rw [hrename] at hrenamed
      cases hrenamed
    · exact .inr (clear_of_renamed h hsited hdir hrename hseen)

end Clear

/-- **Dropping all empties the map**, and the directory of the store is there again; or it fails,
and nothing has changed. -/
theorem Mirrors.clear (h : st.Mirrors base m d) (hdir : st.Replaceable d) (stamp : Nat) :
    (∃ fault, st.clear d stamp = (d, some fault) ∧
      (Text.endsWith st.dir "/" = false → ∀ q, d.lookup false (st.oldPath stamp) ≠ .vacant q)) ∨
    ∃ d' base', st.clear d stamp = (d', none) ∧ st.Mirrors base' (fun _ => none) d' ∧
      st.Replaceable d' := by
  obtain ⟨cs, c, above, hsited⟩ := hdir
  rcases hsited.dir_cases stamp with hdir | ⟨hslash, hold⟩
  · rcases clear_cases h hsited hdir stamp with ⟨fault, hclear, hfree⟩ | ⟨d', hclear, h', hsited'⟩
    · exact .inl ⟨fault, hclear, fun _ => hfree⟩
    · exact .inr ⟨d', _, hclear, h', cs, c, above, hsited'⟩
  · obtain ⟨fault, hclear⟩ := exists_clear_error h hsited hslash hold
    exact .inl ⟨fault, hclear, fun hno => absurd hslash (hno ▸ Bool.false_ne_true)⟩

end Store

/-! ## Sequences of operations -/

/-- What can be asked of a store. -/
inductive StoreOp where
  /-- Keep a payload, if there is one, with the number that is drawn for the file beside its
  place. -/
  | put (key : Digest) (p : Option Payload) (drawn : Nat)
  | get (key : Digest)
  /-- Drop all payloads at some time. -/
  | clear (stamp : Nat)
deriving DecidableEq

namespace StoreOp

/-- The disk after an operation on a store, and why that failed. -/
def apply (st : Store) (d : Disk) : StoreOp → Disk × Option FileFault
  | put key (some p) drawn => st.put d key p drawn
  | put _ none _ | get _ => (d, none)
  | clear stamp => st.clear d stamp

/-- The disk after some operations, and those among them that did not fail. -/
def applyAll (st : Store) (d : Disk) : List StoreOp → Disk × List StoreOp
  | [] => (d, [])
  | op :: ops =>
    let (d, fault) := op.apply st d
    let (d, done) := applyAll st d ops
    (d, if fault.isNone then op :: done else done)

/-- The map after an operation. -/
def onMap (m : Digest → Option Payload) : StoreOp → Digest → Option Payload
  | put key (some p) _ => Function.update m key (some { p with schema := BuildOptions.schema })
  | put _ none _ | get _ => m
  | clear _ => fun _ => none

/-- What is to be kept has a key as digests are and fits the format. -/
def Storable : StoreOp → Prop
  | put key p _ => key.IsFull ∧ ∀ q ∈ p, q.Fits
  | get _ | clear _ => True

instance : DecidablePred Storable
  | put key p _ => inferInstanceAs (Decidable (key.bytes.length = 32 ∧ ∀ q ∈ p, q.Fits))
  | get _ | clear _ => inferInstanceAs (Decidable True)

/-- The operation leaves what is kept under a key. -/
structure Spares (op : StoreOp) (key : Digest) : Prop where
  keeps : ∀ stamp, op ≠ clear stamp
  elsewhere : ∀ p drawn, op ≠ put key (some p) drawn

/-- The operations keep the payload under the key and let it be from then on. -/
def Latest (ops : List StoreOp) (key : Digest) (p : Payload) : Prop :=
  ∃ before drawn after, ops = before ++ put key (some p) drawn :: after ∧
    ∀ op ∈ after, op.Spares key

variable {ops : List StoreOp} {op : StoreOp} {key : Digest} {p : Payload}

theorem not_spares_iff :
    ¬ op.Spares key ↔ (∃ stamp, op = clear stamp) ∨ ∃ p drawn, op = put key (some p) drawn := by
  constructor
  · intro h
    by_contra hnot
    obtain ⟨hkeeps, helsewhere⟩ := not_or.1 hnot
    exact h ⟨not_exists.1 hkeeps, fun p drawn heq => helsewhere ⟨p, drawn, heq⟩⟩
  · rintro (⟨stamp, rfl⟩ | ⟨p, drawn, rfl⟩) h
    · exact h.keeps stamp rfl
    · exact h.elsewhere p drawn rfl

theorem Spares.onMap (h : op.Spares key) (m : Digest → Option Payload) :
    op.onMap m key = m key := by
  cases op with
  | get k => rfl
  | clear stamp => exact absurd rfl (h.keeps stamp)
  | put k p drawn =>
    cases p with
    | none => rfl
    | some p => exact Function.update_of_ne (fun heq => h.elsewhere p drawn (by rw [heq])) _ m

/-- What is kept at the end is kept by the last operation, or it was kept before and is let be. -/
theorem latest_concat :
    Latest (ops ++ [op]) key p ↔
      (∃ drawn, op = put key (some p) drawn) ∨ op.Spares key ∧ Latest ops key p := by
  constructor
  · rintro ⟨before, drawn, after, heq, hspares⟩
    rcases List.eq_nil_or_concat after with rfl | ⟨after, last, rfl⟩
    · exact .inl ⟨drawn, List.append_inj_right' heq rfl |> List.singleton_inj.1⟩
    · rw [List.concat_eq_append, ← List.cons_append, ← List.append_assoc] at heq
      obtain ⟨rfl, hlast⟩ := List.append_inj' heq rfl
      obtain rfl := List.singleton_inj.1 hlast
      obtain ⟨hafter, hop⟩ := List.forall_mem_append.1 (List.concat_eq_append ▸ hspares)
      exact .inr ⟨hop op List.mem_cons_self, before, drawn, after, rfl, hafter⟩
  · rintro (⟨drawn, rfl⟩ | ⟨hop, before, drawn, after, rfl, hafter⟩)
    · exact ⟨ops, drawn, [], rfl, List.forall_mem_nil _⟩
    · refine ⟨before, drawn, after ++ [op], by simp, ?_⟩
      exact List.forall_mem_append.2 ⟨hafter, List.forall_mem_singleton.2 hop⟩

/-- **The map holds what was kept last** since it was last emptied. -/
theorem mapAfter_eq_some_iff {q : Payload} :
    ops.foldl onMap (fun _ => none) key = some q ↔
      ∃ p, Latest ops key p ∧ q = { p with schema := BuildOptions.schema } := by
  induction ops using List.reverseRecOn with
  | nil =>
    constructor
    · intro h
      cases h
    · rintro ⟨p, ⟨before, drawn, after, heq, -⟩, -⟩
      cases before <;> cases heq
  | append_singleton ops op ih =>
    rw [List.foldl_append, List.foldl_cons, List.foldl_nil]
    by_cases hspares : op.Spares key
    · have hop (p : Payload) : Latest (ops ++ [op]) key p ↔ Latest ops key p := by
        rw [latest_concat, or_iff_right fun h => h.elim (hspares.elsewhere p),
          and_iff_right hspares]
      simp only [hspares.onMap, ih, hop]
    · have hop (p : Payload) :
          Latest (ops ++ [op]) key p ↔ ∃ drawn, op = put key (some p) drawn := by
        rw [latest_concat, or_iff_left fun h => hspares h.1]
      simp only [hop]
      rcases not_spares_iff.1 hspares with ⟨stamp, rfl⟩ | ⟨p, drawn, rfl⟩
      · simp [onMap]
      · simp [onMap, eq_comm]

end StoreOp

namespace Store

variable {st : Store} {d : Disk} {base : Place} {m : Digest → Option Payload}

/-- **Each operation does to the store what it does to the map**, or it fails and does nothing. -/
theorem Mirrors.apply (h : st.Mirrors base m d) (hdir : st.Replaceable d) {op : StoreOp}
    (hop : op.Storable) :
    ∃ base', st.Mirrors base' (if (op.apply st d).2.isNone then op.onMap m else m)
        (op.apply st d).1 ∧ st.Replaceable (op.apply st d).1 := by
  cases op with
  | get key => exact ⟨base, h, hdir⟩
  | clear stamp =>
    rw [StoreOp.apply]
    rcases h.clear hdir stamp with ⟨fault, hclear, -⟩ | ⟨d', base', hclear, h', hdir'⟩
    · rw [hclear]
      exact ⟨base, h, hdir⟩
    · rw [hclear]
      exact ⟨base', h', hdir'⟩
  | put key p drawn =>
    cases p with
    | none => exact ⟨base, h, hdir⟩
    | some p =>
      obtain ⟨d', hput, hextends, h'⟩ := h.put hop.1 (hop.2 p rfl) drawn
      rw [StoreOp.apply, hput]
      exact ⟨base, h', hdir.mono hextends⟩

/-- **So does a sequence of operations**, with those that do not fail. -/
theorem Mirrors.applyAll (h : st.Mirrors base m d) (hdir : st.Replaceable d) {ops : List StoreOp}
    (hops : ∀ op ∈ ops, op.Storable) :
    ∃ base', st.Mirrors base' ((StoreOp.applyAll st d ops).2.foldl StoreOp.onMap m)
        (StoreOp.applyAll st d ops).1 ∧ st.Replaceable (StoreOp.applyAll st d ops).1 := by
  induction ops generalizing base m d with
  | nil => exact ⟨base, h, hdir⟩
  | cons op ops ih =>
    obtain ⟨hop, hops⟩ := List.forall_mem_cons.1 hops
    obtain ⟨base', h', hdir'⟩ := h.apply hdir hop
    obtain ⟨base'', h'', hdir''⟩ := ih h' hdir' hops
    refine ⟨base'', ?_, hdir''⟩
    rw [StoreOp.applyAll]
    dsimp only
    split at h'' <;> rename_i hfault
    · rwa [if_pos hfault]
    · rwa [if_neg hfault]

end Store

/-- A disk on which the directory of a store is a link to an empty one. -/
def linkedDisk : Disk := { entries := [(["cache"], .link "real"), (["real"], .directory)] }

/-- A key. -/
def zeroKey : Digest := ⟨List.replicate 32 0⟩

/-- A payload of another version that is kept over one that was kept after all were dropped. -/
def keptOver : List StoreOp :=
  [.put zeroKey (some { fragments := ["a"] }) 7, .clear 5,
   .put zeroKey (some { fragments := ["b"] }) 7,
   .put zeroKey (some { schema := 7, fragments := ["c"] }) 0, .put zeroKey none 0, .get zeroKey]

end Tarjuman
