/-
# What a store holds

The directory of a store that was empty at first holds the directories of its entries
and, under each key, the packed payload that was kept there (`Store.Tidy`).  In such a
directory an entry is read as what was kept or as missing (`Store.get_of_tidy`), and an
entry can always be written (`Store.put_of_tidy`).  It stays in order when an entry is
written (`Store.tidy_put`) and when the disk is changed elsewhere (`Store.Tidy.of_spares`).
-/

import Tarjuman.Build.Store
import Tarjuman.Proofs.LexemeBounds
import Tarjuman.Proofs.PackedRoundTrip
import Tarjuman.Proofs.ReplacedFiles

namespace Tarjuman

namespace Text

theorem length_hexOfBytes (s : Text) : (hexOfBytes s).length = 2 * s.length := by
  induction s with
  | nil => rfl
  | cons b r ih =>
    rw [hexOfBytes, List.flatMap_cons, List.length_append, ← hexOfBytes, ih]
    simp only [List.length_cons, List.length_nil]
    omega

/-- Hexadecimal digits are none of the bytes with a meaning in paths. -/
theorem of_mem_hexOfBytes {s : Text} {b : UInt8} (h : b ∈ hexOfBytes s) :
    b ≠ 0 ∧ b ≠ Path.slash ∧ b ≠ byte '.' := by
  have hdigit : ∀ n < 16, digit n ≠ 0 ∧ digit n ≠ Path.slash ∧ digit n ≠ byte '.' := by decide
  obtain ⟨c, -, hb⟩ := List.mem_flatMap.1 h
  have hc : c.toNat < 256 := c.toNat_lt
  rcases List.mem_cons.1 hb with rfl | hb
  · exact hdigit _ (by omega)
  · obtain rfl := List.mem_singleton.1 hb
    exact hdigit _ (by omega)

end Text

namespace Digest

theorem IsFull.length_hex {d : Digest} (h : d.IsFull) : d.hex.length = 64 := by
  rw [hex, Text.length_hexOfBytes, h]

end Digest

theorem Disk.read_of_lookup {d : Disk} {path bytes : Text} {q : Place}
    (h : d.lookup true path = .found q (.file bytes)) : d.read path = .ok bytes := by
  rw [read, entry?, h]

/-- Where nothing is below a place there is no entry behind it. -/
theorem Disk.get?_of_below {d : Disk} {base ns : Place} (h : d.below base = []) (hns : ns ≠ []) :
    d.get? (base ++ ns) = none := by
  obtain ⟨n, r, rfl⟩ := List.exists_cons_of_ne_nil hns
  have hfind : d.entries.find? (·.1 == base ++ n :: r) = none := by
    refine List.find?_eq_none.2 fun ⟨q, e⟩ hx hq => ?_
    obtain rfl : q = base ++ n :: r := eq_of_beq hq
    have hrest : base.isPrefixOf? (base ++ n :: r) = some (n :: r) :=
      Text.isPrefixOf?_eq_some_iff.2 rfl
    have hmem : (n :: r, e) ∈ d.below base := by
      refine List.mem_filterMap.2 ⟨_, hx, ?_⟩
      dsimp only
      rw [hrest]
    rw [h] at hmem
    exact nomatch hmem
  rw [get?, if_neg (by simp), hfind]
  rfl

namespace Store

open Disk (Nameable Admissible)

/-- The directories on the way to the file of a key. -/
def folderNames (key : Digest) : List Text := ["files", key.hex.take 2]

/-- The name of the file of a key. -/
def fileName (key : Digest) : Text := key.hex ++ ".mp"

variable {st : Store} {key : Digest}

theorem nameable_folderNames (h : key.IsFull) : ∀ c ∈ folderNames key, Nameable c := by
  have hlen : (key.hex.take 2).length = 2 := by rw [List.length_take, h.length_hex]; rfl
  have hmem {b : UInt8} (hb : b ∈ key.hex.take 2) :=
    Text.of_mem_hexOfBytes (List.mem_of_mem_take hb)
  refine List.forall_mem_cons.2 ⟨⟨⟨⟨by decide, by decide⟩, by decide, by decide⟩, by decide⟩,
    List.forall_mem_singleton.2 ⟨⟨⟨fun heq => ?_, fun hb => (hmem hb).2.1 rfl⟩, fun heq => ?_,
      fun heq => ?_⟩, hlen.le.trans (by decide)⟩⟩
  · rw [heq] at hlen
    exact nomatch hlen
  · rw [heq] at hlen
    exact nomatch hlen
  · have hdot : Text.byte '.' ∈ key.hex.take 2 := by rw [heq]; decide
    exact (hmem hdot).2.2 rfl

theorem length_fileName (h : key.IsFull) : (fileName key).length = 67 := by
  rw [fileName, List.length_append, h.length_hex]
  rfl

theorem nameable_fileName (h : key.IsFull) : Nameable (fileName key) := by
  have hlen := length_fileName h
  refine ⟨⟨⟨fun heq => ?_, fun hb => ?_⟩, fun heq => ?_, fun heq => ?_⟩, hlen.le.trans (by decide)⟩
  · rw [heq] at hlen
    exact nomatch hlen
  · rcases List.mem_append.1 hb with hb | hb
    · exact (Text.of_mem_hexOfBytes hb).2.1 rfl
    · exact absurd hb (by decide)
  · rw [heq] at hlen
    exact nomatch hlen
  · rw [heq] at hlen
    exact nomatch hlen

/-- All names on the way to the file of a key. -/
theorem nameable_names (h : key.IsFull) : ∀ c ∈ folderNames key ++ [fileName key], Nameable c :=
  List.forall_mem_append.2
    ⟨nameable_folderNames h, List.forall_mem_singleton.2 (nameable_fileName h)⟩

theorem folder_eq (st : Store) (h : key.IsFull) :
    st.folder key = Path.ofComponents (Path.isAbsolute st.dir)
      (Path.cleanComponents st.dir ++ folderNames key) :=
  Path.join_cons st.dir nofun fun c hc => (nameable_folderNames h c hc).toPlain

theorem entryPath_eq (st : Store) (h : key.IsFull) :
    st.entryPath key = Path.ofComponents (Path.isAbsolute st.dir)
      (Path.cleanComponents st.dir ++ (folderNames key ++ [fileName key])) :=
  Path.join_cons st.dir nofun fun c hc => (nameable_names h c hc).toPlain

theorem withoutSlash_entryPath (st : Store) (h : key.IsFull) :
    Disk.withoutSlash (st.entryPath key) = st.entryPath key := by
  rw [entryPath_eq st h, ← List.append_assoc]
  exact Path.withoutSlash_ofComponents _ (nameable_fileName h).toPart

theorem not_endsWith_entryPath (st : Store) (h : key.IsFull) :
    Text.endsWith (st.entryPath key) "/" = false := by
  rw [entryPath_eq st h, ← List.append_assoc]
  exact Path.not_endsWith_ofComponents _ (nameable_fileName h).toPart

/-- What may stand below the directory of a store in which `kept` is kept. -/
inductive Holds (kept : Digest → Payload → Prop) : Place → DiskEntry → Prop
  | files : Holds kept ["files"] .directory
  | folder (key : Digest) : Holds kept (folderNames key) .directory
  | entry {key : Digest} {p : Payload} (h : kept key p) :
      Holds kept (folderNames key ++ [fileName key]) (.file (Packed.encode p))

variable {kept : Digest → Payload → Prop} {ns : Place} {e : DiskEntry}

theorem Holds.eq_directory (h : Holds kept ns e) (hlen : ns.length ≤ 2) : e = .directory := by
  cases h with
  | files => rfl
  | folder key => rfl
  | entry h => exact absurd hlen (by simp [folderNames])

theorem Holds.not_link (h : Holds kept ns e) (target : Text) : e ≠ .link target := by
  cases h <;> exact nofun

/-- No two keys have their files in one place. -/
theorem eq_of_names_eq {key' : Digest}
    (h : folderNames key ++ [fileName key] = folderNames key' ++ [fileName key']) : key = key' := by
  obtain ⟨-, hname⟩ := List.append_inj h rfl
  exact Digest.hex_injective (List.append_cancel_right (List.singleton_inj.1 hname))

/-- What stands in the place of an entry was kept there. -/
theorem Holds.payload (h : Holds kept (folderNames key ++ [fileName key]) e) :
    ∃ p, kept key p ∧ e = .file (Packed.encode p) := by
  generalize hns : folderNames key ++ [fileName key] = ns at h
  cases h with
  | files => exact nomatch hns
  | folder key' => exact nomatch congrArg List.length hns
  | entry h =>
    rename_i key' p
    obtain rfl := eq_of_names_eq hns
    exact ⟨p, h, rfl⟩

/-- Everything below the directory of a store was put there by it. -/
structure Tidy (st : Store) (base : Place) (kept : Digest → Payload → Prop) (d : Disk) : Prop where
  leads : d.LeadsTo (Path.isAbsolute st.dir) (Path.cleanComponents st.dir) base
  admissible : Admissible (Path.clean st.dir)
  room : (Path.clean st.dir).length + 77 < Disk.longestPath
  holds : ∀ ns e, ns ≠ [] → d.get? (base ++ ns) = some e → Holds kept ns e

variable {base : Place} {d d' : Disk}

namespace Tidy

/-- The way to an entry is clear. -/
theorem clear (h : st.Tidy base kept d) (key : Digest) : d.Clear base (folderNames key) := by
  intro xs hxs e he
  cases xs with
  | nil =>
    rw [List.append_nil, h.leads.get?] at he
    exact (Option.some.inj he).symm
  | cons x xs => exact (h.holds (x :: xs) e (List.cons_ne_nil x xs) he).eq_directory hxs.length_le

/-- There is room for the names behind the directory: `/files`, `/`, two digits, `/`
and the name of the file. -/
theorem admissible_names (h : st.Tidy base kept d) (hkey : key.IsFull) :
    Admissible (Path.ofComponents (Path.isAbsolute st.dir)
      (Path.cleanComponents st.dir ++ (folderNames key ++ [fileName key]))) := by
  have htwo : (key.hex.take 2).length = 2 := by rw [List.length_take, hkey.length_hex]; rfl
  refine Admissible.append h.admissible ?_ ?_
  · refine List.forall_mem_cons.2 ⟨by decide, List.forall_mem_cons.2 ⟨fun h0 => ?_,
      List.forall_mem_singleton.2 fun h0 => ?_⟩⟩
    · exact (Text.of_mem_hexOfBytes (List.mem_of_mem_take h0)).1 rfl
    · rcases List.mem_append.1 h0 with h0 | h0
      · exact (Text.of_mem_hexOfBytes h0).1 rfl
      · exact absurd h0 (by decide)
  · have hnames : (folderNames key ++ [fileName key]).flatten.length = 74 := by
      show (Text.ofString "files" ++ (key.hex.take 2 ++ (fileName key ++ []))).length = 74
      simp only [List.length_append, htwo, length_fileName hkey]
      rfl
    rw [hnames]
    exact h.room

/-- Along an open way the place of an entry is seen. -/
theorem lookup_entryPath (h : st.Tidy base kept d) (hkey : key.IsFull)
    (hopen : d.Open base (folderNames key)) :
    d.lookup true (st.entryPath key) =
      d.arrivalAt (base ++ (folderNames key ++ [fileName key])) := by
  rw [entryPath_eq st hkey]
  refine h.leads.lookup_of_open hopen (nameable_names hkey) (h.admissible_names hkey) ?_ true
  intro target heq
  exact (h.holds _ _ (List.cons_ne_nil _ _) heq).not_link target rfl

/-- What stands in the place of an entry. -/
theorem payload_of_get? (h : st.Tidy base kept d) {e : DiskEntry}
    (he : d.get? (base ++ (folderNames key ++ [fileName key])) = some e) :
    ∃ p, kept key p ∧ e = .file (Packed.encode p) :=
  (h.holds _ e (List.cons_ne_nil _ _) he).payload

end Tidy

theorem get_of_missing
    (h : (∃ p, d.lookup true (st.entryPath key) = .vacant p) ∨
      d.lookup true (st.entryPath key) = .failed .missing) : st.get d key = .ok none := by
  have hread : d.read (st.entryPath key) = .error ⟨"open", st.entryPath key, .missing⟩ := by
    rw [Disk.read, Disk.entry?]
    rcases h with ⟨p, h⟩ | h <;> rw [h]
  rw [get, hread]
  rfl

theorem get_of_decoded {bytes : Text} {p : Payload} (h : d.read (st.entryPath key) = .ok bytes)
    (hbytes : Packed.decode? bytes = some p) (hp : p.schema = BuildOptions.schema) :
    st.get d key = .ok (some p) := by
  rw [get, h]
  dsimp only
  rw [hbytes]
  dsimp only
  rw [if_pos hp]

theorem get_of_found {q : Place} {p : Payload}
    (h : d.lookup true (st.entryPath key) = .found q (.file (Packed.encode p))) (hfits : p.Fits)
    (hschema : p.schema = BuildOptions.schema) : st.get d key = .ok (some p) :=
  get_of_decoded (Disk.read_of_lookup h) (Packed.decode?_encode hfits) hschema

/-- **An entry is read as it was kept, or as missing.** -/
theorem get_of_tidy (h : st.Tidy base kept d) (hkey : key.IsFull)
    (hkept : ∀ p, kept key p → p.Fits ∧ p.schema = BuildOptions.schema) :
    st.get d key = .ok none ∨ ∃ p, kept key p ∧ st.get d key = .ok (some p) := by
  rcases (h.clear key).open_or_missing h.leads.get? (nameable_folderNames hkey) true with
    hopen | ⟨-, hbehind⟩
  · have hlook := h.lookup_entryPath hkey hopen
    rw [Disk.arrivalAt] at hlook
    cases hget : d.get? (base ++ (folderNames key ++ [fileName key])) with
    | none =>
      rw [hget] at hlook
      exact .inl (get_of_missing (.inl ⟨_, hlook⟩))
    | some e =>
      obtain ⟨p, hp, rfl⟩ := h.payload_of_get? hget
      rw [hget] at hlook
      obtain ⟨hfits, hschema⟩ := hkept p hp
      exact .inr ⟨p, hp, get_of_found hlook hfits hschema⟩
  · obtain ⟨left, hleft⟩ := h.leads.lookup (fun c hc => (nameable_names hkey c hc).toPart)
      (h.admissible_names hkey) true
    refine .inl (get_of_missing (.inr ?_))
    rw [entryPath_eq st hkey, hleft]
    exact Disk.resolve_of_descend (hbehind (fileName key) []) (by simp) left

/-- The directories of an entry may be made. -/
theorem Tidy.made (h : st.Tidy base kept d) (hmade : d.Made base (folderNames key) d') :
    st.Tidy base kept d' := by
  refine ⟨h.leads.mono (hmade.extends (h.clear key)), h.admissible, h.room, fun ns e hns he => ?_⟩
  by_cases hway : ns <+: folderNames key
  · rw [hmade.opened ns hway] at he
    obtain rfl := Option.some.inj he
    rcases List.prefix_cons_iff.1 hway with rfl | ⟨r, rfl, hr⟩
    · exact absurd rfl hns
    · rcases List.prefix_cons_iff.1 hr with rfl | ⟨r', rfl, hr'⟩
      · exact .files
      · rw [List.prefix_nil.1 hr']
        exact .folder key
  · have hother : ∀ xs, xs <+: folderNames key → base ++ ns ≠ base ++ xs := by
      intro xs hxs heq
      obtain rfl : ns = xs := List.append_cancel_left heq
      exact hway hxs
    exact h.holds ns e hns (hmade.other _ hother ▸ he)

/-- An entry in its place is in nobody's way. -/
theorem Tidy.extends_put (h : st.Tidy base kept d) (key : Digest) (bytes : Text) :
    d.Extends (d.put (base ++ (folderNames key ++ [fileName key])) (.file bytes)) := by
  refine Disk.extends_put (by simp) (fun e he => ?_) _
  obtain ⟨q, -, rfl⟩ := h.payload_of_get? he
  rfl

/-- An entry may be put in its place, over what was kept there before. -/
theorem Tidy.put_entry (h : st.Tidy base kept d) {kept' : Digest → Payload → Prop} {p : Payload}
    (hp : kept' key p) (hother : ∀ k q, k ≠ key → kept k q → kept' k q) :
    st.Tidy base kept'
      (d.put (base ++ (folderNames key ++ [fileName key])) (.file (Packed.encode p))) := by
  refine ⟨h.leads.mono (h.extends_put key _), h.admissible, h.room, fun ns e hns he => ?_⟩
  rw [Disk.get?_put d (by simp)] at he
  split at he
  · rename_i heq
    obtain rfl := List.append_cancel_left heq
    obtain rfl := Option.some.inj he
    exact .entry hp
  · rename_i hne
    cases h.holds ns e hns he with
    | files => exact .files
    | folder k => exact .folder k
    | entry hq => exact .entry (hother _ _ (fun heq => hne (by rw [heq])) hq)

/-- **An entry is written into its directory**, whatever number is drawn for the file beside it:
when that has been moved, the disk is as if the entry had been written in its place. -/
theorem put_of_folder (hkey : key.IsFull) {dir : Place}
    (hmake : d.makeDirectories (st.folder key) = (d', none))
    (hleads : d'.LeadsTo (Path.isAbsolute st.dir)
      (Path.cleanComponents st.dir ++ folderNames key) dir)
    (hadm : Admissible (st.entryPath key))
    (hend : d'.get? (dir ++ [fileName key]) ≠ some .directory) (p : Payload) (drawn : Nat) :
    st.put d key p drawn = (d'.put (dir ++ [fileName key])
      (.file (Packed.encode { p with schema := BuildOptions.schema })), none) := by
  rw [put, hmake]
  dsimp only
  generalize Packed.encode { p with schema := BuildOptions.schema } = bytes
  have hpath := entryPath_eq st hkey
  rw [← List.append_assoc] at hpath
  have hne : Path.cleanComponents st.dir ++ folderNames key ≠ [] := by simp [folderNames]
  have hfolder : d'.lookup true (st.folder key) = .found dir .directory := by
    rw [folder_eq st hkey]
    exact hleads.lookup_self hne ((hpath ▸ hadm).dropLast hne)
  obtain ⟨name, new, hnew, hfree, htemp⟩ := Disk.exists_createTemp hfolder "tmp-" drawn bytes
  have hextends : d'.Extends (d'.put new (.file bytes)) :=
    Disk.extends_put hnew (fun e he => by rw [hfree] at he; cases he) _
  have hlook := (hleads.mono hextends).lookup_last (nameable_fileName hkey) (hpath ▸ hadm)
  rw [← hpath] at hlook
  have hplace : (d'.put new (.file bytes)).get? (dir ++ [fileName key]) ≠ some .directory := by
    rw [Disk.get?_put d' hnew]
    split
    · simp
    · exact hend
  rw [htemp]
  dsimp only
  rw [Disk.replace_put hnew hfree (by rwa [withoutSlash_entryPath st hkey]) hplace
    (not_endsWith_entryPath st hkey)]

/-- **Nothing stands in the way of writing an entry**: its directories are made, and then it
is put in its place. -/
theorem put_of_tidy (h : st.Tidy base kept d) (hkey : key.IsFull) (p : Payload) (drawn : Nat) :
    ∃ d', d.Made base (folderNames key) d' ∧
      st.put d key p drawn = (d'.put (base ++ (folderNames key ++ [fileName key]))
        (.file (Packed.encode { p with schema := BuildOptions.schema })), none) := by
  have hadm := h.admissible_names hkey
  have hnames := hadm
  rw [← List.append_assoc] at hnames
  obtain ⟨d', hmake, hmade⟩ := Disk.made_makeDirectories h.leads (nameable_folderNames hkey)
    (by simp [folderNames]) (hnames.dropLast (by simp [folderNames])) (h.clear key)
  have h' := h.made hmade
  refine ⟨d', hmade, ?_⟩
  rw [← List.append_assoc]
  refine put_of_folder hkey (by rw [folder_eq st hkey, hmake])
    (h'.leads.append hmade.opened (nameable_folderNames hkey)) (by rwa [entryPath_eq st hkey]) ?_
    p drawn
  rw [List.append_assoc]
  intro hget
  obtain ⟨q, -, hfile⟩ := h'.payload_of_get? hget
  cases hfile

/-- A store in order takes a payload and stays in order. -/
theorem tidy_put (h : st.Tidy base kept d) (hkey : key.IsFull) {p : Payload} (hp : kept key p)
    (hschema : p.schema = BuildOptions.schema) (drawn : Nat) :
    ∃ d', st.put d key p drawn = (d', none) ∧ st.Tidy base kept d' := by
  obtain ⟨d', hmade, hput⟩ := put_of_tidy h hkey p drawn
  have hsame : { p with schema := BuildOptions.schema } = p := by rw [← hschema]
  rw [hsame] at hput
  exact ⟨_, hput, (h.made hmade).put_entry hp fun _ _ _ hq => hq⟩

/-- The directory of the store is there and empty, and the names of its entries fit
behind its path. -/
structure Fresh (st : Store) (d : Disk) : Prop where
  empty : ∃ base, d.lookup true (Path.clean st.dir) = .found base .directory ∧ d.below base = []
  room : (Path.clean st.dir).length + 77 < Disk.longestPath

theorem Fresh.tidy (h : st.Fresh d) (kept : Digest → Payload → Prop) :
    ∃ base, st.Tidy base kept d := by
  obtain ⟨base, hlook, hbelow⟩ := h.empty
  obtain ⟨hadm, hleads⟩ := Disk.leadsTo_of_lookup hlook
  refine ⟨base, hleads, hadm, h.room, fun ns e hns he => ?_⟩
  rw [Disk.get?_of_below hbelow hns] at he
  exact nomatch he

/-- From one disk to the other nothing was put into the directory of the store or altered
there, though something may be gone. -/
structure Spares (st : Store) (d d' : Disk) : Prop where
  kept : ∃ base, d.lookup true (Path.clean st.dir) = .found base .directory ∧
    d'.lookup true (Path.clean st.dir) = .found base .directory ∧
    ∀ ns e, ns ≠ [] → d'.get? (base ++ ns) = some e → d.get? (base ++ ns) = some e

theorem Tidy.of_spares (h : st.Tidy base kept d) (hd : st.Spares d d') :
    st.Tidy base kept d' := by
  obtain ⟨base', hbefore, hafter, hsame⟩ := hd.kept
  have hbase : Disk.Arrival.found base .directory = .found base' .directory :=
    h.leads.resolve.symm.trans (Disk.leadsTo_of_lookup hbefore).2.resolve
  obtain ⟨rfl, -⟩ := Disk.Arrival.found.inj hbase
  exact ⟨(Disk.leadsTo_of_lookup hafter).2, h.admissible, h.room,
    fun ns e hns he => h.holds ns e hns (hsame ns e hns he)⟩

end Store
end Tarjuman
