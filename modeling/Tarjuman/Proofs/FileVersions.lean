/-
# Versions of files

A file set only grows.  A call adds one file behind all others or leaves the set as it is
(`FileSet.perform_cases`), so what calls added is what the set holds, in the order of the calls
(`FileSet.files_performAll`), and numbers are given one after the other.

Each path has a newest version, which the set keeps in an index under the clean path.  The index
is never searched through the files, so it has to be right at all times (`FileSet.Filed`): it
gives the greatest number that a path has, however the path is spelled.
-/

import Mathlib.Algebra.Order.Ring.Nat
import Mathlib.Order.Bounds.Basic
import Tarjuman.Proofs.SourceOrder
import Tarjuman.Source.File

namespace Tarjuman

/-! ## Offsets of line feeds -/

namespace Source

/-- The offsets in a text whose first byte has the offset `off`. -/
theorem map_toNat_breaksFrom (s : Text) {off : Nat} (hfits : off + s.length ≤ 2 ^ 32) :
    (breaksFrom (UInt32.ofNat off) s).map (·.toNat) =
      ((List.range s.length).filter fun i => s[i]? = some 0x0A).map (off + ·) := by
  induction s generalizing off with
  | nil => rfl
  | cons b r ih =>
    rw [List.length_cons] at hfits
    have hnext : UInt32.ofNat off + 1 = UInt32.ofNat (off + 1) := (UInt32.ofNat_add off 1).symm
    have hoff : (UInt32.ofNat off).toNat = off :=
      UInt32.toNat_ofNat_of_lt' (by rw [show UInt32.size = 2 ^ 32 from rfl]; omega)
    -- The offsets behind the first byte are those in the rest, one further on.
    have hrest : (((List.range r.length).map Nat.succ).filter
        fun i => (b :: r)[i]? = some 0x0A).map (off + ·) =
          ((List.range r.length).filter fun i => r[i]? = some 0x0A).map (off + 1 + ·) := by
      rw [List.filter_map, List.map_map]
      refine congrArg₂ List.map (funext fun i => ?_) rfl
      show off + (i + 1) = off + 1 + i
      omega
    rw [breaksFrom, hnext, List.length_cons, List.range_succ_eq_map]
    by_cases hb : b = 0x0A
    · rw [if_pos hb, List.filter_cons_of_pos (by simp [hb]), List.map_cons, List.map_cons, hrest,
        hoff, ih (by omega)]
      rfl
    · rw [if_neg hb, List.filter_cons_of_neg (by simp [hb]), hrest, ih (by omega)]

/-- **The index of a content is the list of the offsets of its line feeds**, if all offsets are
words. -/
theorem map_toNat_breaks {content : Text} (hfits : content.length ≤ 2 ^ 32) :
    (breaks content).map (·.toNat) =
      (List.range content.length).filter fun i => content[i]? = some 0x0A := by
  have h := map_toNat_breaksFrom content ((Nat.zero_add content.length).symm ▸ hfits)
  rw [breaks]
  simpa using h

theorem pairwise_breaks {content : Text} (hfits : content.length ≤ 2 ^ 32) :
    (breaks content).Pairwise (· < ·) := by
  have h : ((breaks content).map (·.toNat)).Pairwise (· < ·) := by
    rw [map_toNat_breaks hfits]
    exact List.pairwise_lt_range.filter _
  exact (List.pairwise_map.1 h).imp fun hlt => UInt32.lt_iff_toNat_lt.2 hlt

end Source

namespace FileSet

/-- The path that a call names. -/
def Call.path : Call → Text
  | .add path _ _ => path
  | .addVirtual path _ => path
  | .load _ path => path

/-- The content that a call has for the set, and its flags; none if it cannot be loaded. -/
def Call.offered? : Call → Option (Text × FileFlags)
  | .add _ content flags => some (content, flags)
  | .addVirtual _ content => some (content, .isVirtual)
  | .load d path =>
    match d.read path with
    | .ok raw => if raw.length < 2 ^ 32 then some (Source.clean raw) else none
    | .error _ => none

/-- The set after calls. -/
def performAll (fs : FileSet) (calls : List Call) : FileSet :=
  calls.foldl (fun fs call => (fs.perform call).2) fs

/-- A new set with a base directory after calls. -/
def after (base : Text) (calls : List Call) : FileSet := ({ base } : FileSet).performAll calls

/-- What calls are answered, one after the other. -/
def replies (fs : FileSet) : List Call → List (Except CallFault SourceFile)
  | [] => []
  | call :: calls => (fs.perform call).1 :: (fs.perform call).2.replies calls

variable {fs : FileSet} {call : Call}

/-! ## One call -/

theorem store_cases (fs : FileSet) (path content : Text) (flags : FileFlags) :
    (content.length < 2 ^ 32 ∧ fs.size < 2 ^ 32 ∧ fs.store path content flags =
      (.ok (fs.fresh path content flags), fs.add path content flags)) ∨
    ((content.length < 2 ^ 32 → ¬ fs.size < 2 ^ 32) ∧
      ∃ fault, fs.store path content flags = (.error fault, fs)) := by
  rw [store]
  by_cases hcontent : sizeLimit ≤ content.length
  · rw [if_pos hcontent]
    exact .inr ⟨fun hlt => absurd hlt (Nat.not_lt_of_le hcontent), _, rfl⟩
  rw [if_neg hcontent]
  by_cases hsize : sizeLimit ≤ fs.size
  · rw [if_pos hsize]
    exact .inr ⟨fun _ => Nat.not_lt_of_le hsize, _, rfl⟩
  · rw [if_neg hsize]
    exact .inl ⟨Nat.lt_of_not_le hcontent, Nat.lt_of_not_le hsize, rfl⟩

/-- A call that has a content stores it under its path. -/
theorem perform_eq_store (fs : FileSet) {content : Text} {flags : FileFlags}
    (h : call.offered? = some (content, flags)) :
    fs.perform call = fs.store call.path content flags := by
  cases call with
  | add path content flags =>
    cases h
    rfl
  | addVirtual path content =>
    cases h
    rfl
  | load d path =>
    rw [Call.offered?] at h
    split at h
    · rename_i raw hread
      split at h
      · rename_i hlen
        have hfits : ¬ sizeLimit ≤ raw.length := Nat.not_le_of_lt hlen
        refine load_of_fetch ?_ fs
        rw [fetch, hread]
        dsimp only
        rw [if_neg hfits, Option.some.inj h]
      · cases h
    · cases h

/-- A call that has none leaves the set as it is. -/
theorem perform_eq_error (fs : FileSet) (h : call.offered? = none) :
    ∃ fault, fs.perform call = (.error fault, fs) := by
  cases call with
  | add path content flags => cases h
  | addVirtual path content => cases h
  | load d path =>
    rw [Call.offered?] at h
    split at h
    · rename_i raw hread
      split at h
      · cases h
      · rename_i hlen
        have hfull : sizeLimit ≤ raw.length := Nat.le_of_not_lt hlen
        have hfetch : fetch d path = .error (.tooLarge path) := by
          rw [fetch, hread]
          exact if_pos hfull
        exact ⟨_, load_of_fault hfetch fs⟩
    · rename_i fault hread
      have hfetch : fetch d path = .error (.unreadable fault) := by rw [fetch, hread]
      exact ⟨_, load_of_fault hfetch fs⟩

/-- **What a call can do**: add a file with its content under its path, or leave the set as it
is, and it does so only if there is no content or no room for it. -/
theorem perform_cases (fs : FileSet) (call : Call) :
    (∃ content flags, call.offered? = some (content, flags) ∧ content.length < 2 ^ 32 ∧
      fs.size < 2 ^ 32 ∧ fs.perform call =
        (.ok (fs.fresh call.path content flags), fs.add call.path content flags)) ∨
    ((∀ content flags, call.offered? = some (content, flags) → content.length < 2 ^ 32 →
      ¬ fs.size < 2 ^ 32) ∧ ∃ fault, fs.perform call = (.error fault, fs)) := by
  cases hoffered : call.offered? with
  | none => exact .inr ⟨fun content flags h => (by cases h), fs.perform_eq_error hoffered⟩
  | some offered =>
    obtain ⟨content, flags⟩ := offered
    rw [fs.perform_eq_store hoffered]
    rcases fs.store_cases call.path content flags with ⟨hcontent, hsize, h⟩ | ⟨hfull, h⟩
    · exact .inl ⟨content, flags, rfl, hcontent, hsize, h⟩
    · refine .inr ⟨fun content' flags' heq => ?_, h⟩
      cases heq
      exact hfull

theorem toNat_fresh_id (hsize : fs.size < 2 ^ 32) (path content : Text) (flags : FileFlags) :
    (fs.fresh path content flags).id.toNat = fs.size :=
  UInt32.toNat_ofNat_of_lt' hsize

/-- **A call adds a file exactly if it has a content** and there is room, and then the file with
that content under the clean path and the next number. -/
theorem perform_eq_ok_iff {f : SourceFile} : (fs.perform call).1 = .ok f ↔
    call.offered? = some (f.content, f.flags) ∧ f.content.length < 2 ^ 32 ∧ fs.size < 2 ^ 32 ∧
      f.id.toNat = fs.size ∧ f.path = Path.clean call.path ∧
      f.breaks = Source.breaks f.content := by
  constructor
  · intro hf
    rcases fs.perform_cases call with
      ⟨content, flags, hoffered, hcontent, hsize, heq⟩ | ⟨-, fault, heq⟩
    · rw [heq] at hf
      obtain rfl := Except.ok.inj hf
      exact ⟨hoffered, hcontent, hsize, toNat_fresh_id hsize call.path content flags, rfl, rfl⟩
    · rw [heq] at hf
      cases hf
  · rintro ⟨hoffered, hcontent, hsize, hid, hpath, hbreaks⟩
    rcases fs.perform_cases call with ⟨content, flags, hoffered', -, -, heq⟩ | ⟨hfull, -⟩
    · obtain ⟨id, path, content', breaks, flags'⟩ := f
      rw [hoffered] at hoffered'
      cases hoffered'
      rw [heq, fresh, ← hid, UInt32.ofNat_toNat, ← hpath, ← hbreaks]
    · exact absurd hsize (hfull _ _ hoffered hcontent)

/-- A file of a set with one file more. -/
theorem getElem?_add (path content : Text) (flags : FileFlags) (i : Nat) :
    (fs.add path content flags).files[i]? =
      if i = fs.size then some (fs.fresh path content flags) else fs.files[i]? :=
  Array.getElem?_push

/-- The index of a set with one file more. -/
theorem latest?_add (path content p : Text) (flags : FileFlags) :
    (fs.add path content flags).latest? p =
      if Path.clean path = Path.clean p then some (UInt32.ofNat fs.size) else fs.latest? p := by
  rw [latest?, add, indexWith]
  dsimp only
  by_cases hp : Path.clean path = Path.clean p
  · rw [List.find?_cons_of_pos (by simpa using hp), if_pos hp]
    rfl
  · rw [List.find?_cons_of_neg (by simpa using hp), if_neg hp, latest?, List.find?_filter]
    congr 2
    funext x
    by_cases hx : x.1 = Path.clean p
    · simp [hx, Ne.symm hp]
    · simp [hx]

/-! ## The index -/

/-- A file of the set has a path that is the same as `p` when both are clean. -/
def HasVersion (fs : FileSet) (p : Text) (id : FileId) : Prop :=
  ∃ f, fs.get? id = some f ∧ Path.clean f.path = Path.clean p

/-- Every file has its number, its clean path and its line index, and the index of the set knows
the newest version of each path. -/
structure Filed (fs : FileSet) : Prop where
  sized : fs.size ≤ 2 ^ 32
  numbered : ∀ (i : Nat) (f : SourceFile), fs.files[i]? = some f → f.id.toNat = i
  indexed : ∀ (i : Nat) (f : SourceFile), fs.files[i]? = some f →
    f.content.length < 2 ^ 32 ∧ f.breaks = Source.breaks f.content
  newest : ∀ p id, fs.latest? p = some id → IsGreatest {id | fs.HasVersion p id} id
  missing : ∀ p, fs.latest? p = none → ∀ id, ¬ fs.HasVersion p id

theorem filed_empty (base : Text) : ({ base } : FileSet).Filed := by
  have hnone : ∀ (i : Nat) (f : SourceFile), ({ base } : FileSet).files[i]? ≠ some f := by simp
  refine ⟨Nat.zero_le _, fun i f hf => absurd hf (hnone i f), fun i f hf => absurd hf (hnone i f),
    fun p id h => (by cases h), ?_⟩
  rintro p - id ⟨f, hf, -⟩
  exact hnone _ f hf

theorem HasVersion.toNat_lt {p : Text} {id : FileId} (h : fs.HasVersion p id) :
    id.toNat < fs.size := by
  obtain ⟨f, hf, -⟩ := h
  exact (Array.getElem?_eq_some_iff.1 hf).1

/-- The versions of a path when a file was added. -/
theorem hasVersion_add (path content p : Text) (flags : FileFlags) (id : FileId) :
    (fs.add path content flags).HasVersion p id ↔
      (id.toNat = fs.size ∧ Path.clean path = Path.clean p) ∨ fs.HasVersion p id := by
  rw [HasVersion, get?, getElem?_add]
  by_cases hid : id.toNat = fs.size
  · rw [if_pos hid]
    have hold : ¬ fs.HasVersion p id := fun h => Nat.ne_of_lt h.toNat_lt hid
    constructor
    · rintro ⟨f, hf, hclean⟩
      obtain rfl := Option.some.inj hf
      exact .inl ⟨hid, (Path.clean_clean path).symm.trans hclean⟩
    · rintro (⟨-, hclean⟩ | h)
      · exact ⟨_, rfl, (Path.clean_clean path).trans hclean⟩
      · exact absurd h hold
  · rw [if_neg hid]
    exact ⟨.inr, fun h => h.resolve_left fun hc => hid hc.1⟩

/-- **A file that is added is filed.** -/
theorem Filed.add (h : fs.Filed) (hsize : fs.size < 2 ^ 32) (path : Text) {content : Text}
    (hcontent : content.length < 2 ^ 32) (flags : FileFlags) :
    (fs.add path content flags).Filed := by
  have hword : (UInt32.ofNat fs.size).toNat = fs.size := UInt32.toNat_ofNat_of_lt' hsize
  refine ⟨?_, fun i f hf => ?_, fun i f hf => ?_, fun p id hp => ?_, fun p hp id hid => ?_⟩
  · rw [size, FileSet.add, Array.size_push]
    exact hsize
  · rw [getElem?_add] at hf
    split at hf
    · obtain rfl := Option.some.inj hf
      rw [toNat_fresh_id hsize]
      exact Eq.symm ‹_›
    · exact h.numbered i f hf
  · rw [getElem?_add] at hf
    split at hf
    · obtain rfl := Option.some.inj hf
      exact ⟨hcontent, rfl⟩
    · exact h.indexed i f hf
  · rw [latest?_add] at hp
    split at hp
    · rename_i hclean
      obtain rfl := Option.some.inj hp
      refine ⟨(hasVersion_add ..).2 (.inl ⟨hword, hclean⟩), fun id hid => ?_⟩
      rw [UInt32.le_iff_toNat_le, hword]
      rcases (hasVersion_add ..).1 hid with ⟨hlast, -⟩ | hold
      · exact Nat.le_of_eq hlast
      · exact Nat.le_of_lt hold.toNat_lt
    · rename_i hclean
      obtain ⟨hmem, hbound⟩ := h.newest p id hp
      refine ⟨(hasVersion_add ..).2 (.inr hmem), fun id' hid' => hbound ?_⟩
      exact ((hasVersion_add ..).1 hid').resolve_left fun hc => hclean hc.2
  · rw [latest?_add] at hp
    split at hp
    · cases hp
    · rename_i hclean
      rcases (hasVersion_add ..).1 hid with ⟨-, hsame⟩ | hold
      · exact hclean hsame
      · exact h.missing p hp id hold

/-! ## Along a run -/

theorem Filed.perform (h : fs.Filed) (call : Call) : (fs.perform call).2.Filed := by
  rcases fs.perform_cases call with ⟨content, flags, -, hcontent, hsize, heq⟩ | ⟨-, fault, heq⟩
  · rw [heq]
    exact h.add hsize call.path hcontent flags
  · rw [heq]
    exact h

theorem Filed.performAll (h : fs.Filed) (calls : List Call) : (fs.performAll calls).Filed := by
  induction calls generalizing fs with
  | nil => exact h
  | cons call calls ih => exact ih (h.perform call)

theorem after_append (base : Text) (calls later : List Call) :
    after base (calls ++ later) = (after base calls).performAll later := List.foldl_append

theorem after_concat (base : Text) (calls : List Call) (call : Call) :
    after base (calls ++ [call]) = ((after base calls).perform call).2 :=
  after_append base calls [call]

/-- **The set holds what was added**, in the order of the calls and behind what it held. -/
theorem files_performAll (fs : FileSet) (calls : List Call) :
    (fs.performAll calls).files.toList =
      fs.files.toList ++ (fs.replies calls).filterMap (·.toOption) := by
  induction calls generalizing fs with
  | nil => exact (List.append_nil _).symm
  | cons call calls ih =>
    refine (ih (fs.perform call).2).trans ?_
    rw [replies]
    rcases fs.perform_cases call with ⟨content, flags, -, -, -, heq⟩ | ⟨-, fault, heq⟩
    · rw [heq]
      show (fs.files.push _).toList ++ _ = fs.files.toList ++ _
      rw [Array.toList_push, List.append_assoc]
      rfl
    · rw [heq]
      rfl

/-- What is in the set stays in it. -/
theorem get?_performAll {id : FileId} {f : SourceFile} (hf : fs.get? id = some f)
    (calls : List Call) : (fs.performAll calls).get? id = some f := by
  rw [get?, ← Array.getElem?_toList] at hf ⊢
  rw [files_performAll, List.getElem?_append_left (List.getElem?_eq_some_iff.1 hf).1, hf]

end FileSet

/-- **A file set keeps all versions of its files.**  After any calls:

* the files are those that were added, in the order of the calls, and each has its place as its
  number;
* a call adds its content under its clean path and the next number, unless it has nothing to add
  because loading failed, or there are not enough offsets or numbers;
* no later call changes a file, and a call that fails changes nothing;
* the line index of a file holds the offsets of the line feeds in its content, in growing order;
* the newest version of a path is the greatest number of a file whose path is the same when both
  are clean, and there is none if there is no such file. -/
theorem file_set_keeps_versions (base : Text) (calls : List FileSet.Call) :
    (FileSet.after base calls).files.toList =
      (({ base } : FileSet).replies calls).filterMap (·.toOption) ∧
    (∀ (i : Nat) (f : SourceFile), (FileSet.after base calls).files[i]? = some f → f.id.toNat = i) ∧
    (∀ (call : FileSet.Call) (f : SourceFile), ((FileSet.after base calls).perform call).1 = .ok f ↔
      call.offered? = some (f.content, f.flags) ∧ f.content.length < 2 ^ 32 ∧
        (FileSet.after base calls).size < 2 ^ 32 ∧ f.id.toNat = (FileSet.after base calls).size ∧
        f.path = Path.clean call.path ∧ f.breaks = Source.breaks f.content) ∧
    (∀ call f, ((FileSet.after base calls).perform call).1 = .ok f →
      (FileSet.after base (calls ++ [call])).get? f.id = some f) ∧
    (∀ later id f, (FileSet.after base calls).get? id = some f →
      (FileSet.after base (calls ++ later)).get? id = some f) ∧
    (∀ call fault, ((FileSet.after base calls).perform call).1 = .error fault →
      FileSet.after base (calls ++ [call]) = FileSet.after base calls) ∧
    (∀ id f, (FileSet.after base calls).get? id = some f →
      (f.breaks.map (·.toNat) =
        (List.range f.content.length).filter fun i => f.content[i]? = some 0x0A) ∧
      f.breaks.Pairwise (· < ·)) ∧
    (∀ p id, (FileSet.after base calls).latest? p = some id ↔
      IsGreatest {id | ∃ f, (FileSet.after base calls).get? id = some f ∧
        Path.clean f.path = Path.clean p} id) ∧
    (∀ p, (FileSet.after base calls).latest? p = none ↔
      ∀ id f, (FileSet.after base calls).get? id = some f → Path.clean f.path ≠ Path.clean p) := by
  have h : (FileSet.after base calls).Filed := (FileSet.filed_empty base).performAll calls
  refine ⟨FileSet.files_performAll _ _, h.numbered, fun call f => FileSet.perform_eq_ok_iff,
    fun call f hf => ?_, fun later id f hf => ?_, fun call fault hfault => ?_, fun id f hf => ?_,
    fun p id => ⟨h.newest p id, fun hid => ?_⟩,
    fun p => ⟨fun hnone id f hf hp => h.missing p hnone id ⟨f, hf, hp⟩, fun hnone => ?_⟩⟩
  · have hid := (FileSet.perform_eq_ok_iff.1 hf).2.2.2.1
    rw [FileSet.after_concat]
    rcases (FileSet.after base calls).perform_cases call with
      ⟨content, flags, -, -, -, heq⟩ | ⟨-, fault, heq⟩
    · rw [heq] at hf ⊢
      obtain rfl := Except.ok.inj hf
      rw [FileSet.get?, FileSet.getElem?_add, if_pos hid]
    · rw [heq] at hf
      cases hf
  · rw [FileSet.after_append]
    exact FileSet.get?_performAll hf later
  · rw [FileSet.after_concat]
    rcases (FileSet.after base calls).perform_cases call with
      ⟨content, flags, -, -, -, heq⟩ | ⟨-, fault', heq⟩
    · rw [heq] at hfault
      cases hfault
    · rw [heq]
  · obtain ⟨hfits, hbreaks⟩ := h.indexed id.toNat f hf
    have hle := Nat.le_of_lt hfits
    rw [hbreaks]
    exact ⟨Source.map_toNat_breaks hle, Source.pairwise_breaks hle⟩
  · cases hlatest : (FileSet.after base calls).latest? p with
    | none => exact absurd hid.1 (h.missing p hlatest id)
    | some newest =>
      obtain ⟨hmem, hbound⟩ := h.newest p newest hlatest
      exact congrArg some (UInt32.le_antisymm (hid.2 hmem) (hbound hid.1))
  · cases hlatest : (FileSet.after base calls).latest? p with
    | none => rfl
    | some id =>
      obtain ⟨f, hf, hp⟩ := (h.newest p id hlatest).1
      exact absurd hp (hnone id f hf)

end Tarjuman
