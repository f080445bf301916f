/-
# Files that are written

A look-up that ends at a file or where nothing stands passes through directories and links only, and
its end is none of them.  So on a disk that still has these, the same path leads to what stands at
the end then (`Disk.resolve_end`), be it new or written over (`Disk.lookup_put_file`).  The path
without its last component leads to a directory (`Disk.resolve_of_concat`).  A link that leads to no
directory is not on the way to one, so that a file may take its place (`Disk.resolve_put_link`).
-/

import Mathlib.Data.List.Induction
import Tarjuman.Proofs.DiskLookup

namespace Tarjuman
namespace Disk

variable {d : Disk} {follow : Bool} {budget : Nat} {here q : Place} {cs : List Text}
  {e : DiskEntry} {content : Text}

/-! ## What is there -/

theorem entry?_eq_ok_iff {path : Text} :
    d.entry? follow path = .ok e ↔ ∃ p, d.lookup follow path = .found p e := by
  rw [ entry?]
  cases d.lookup follow path <;> simp

/-- A fault is put into words only where there is one. -/
theorem mapError_eq_ok_iff {r : Except FileCause DiskEntry} {f : FileCause → FileFault} :
    r.mapError f = .ok e ↔ r = .ok e := by
  cases r with
  | ok e' => exact ⟨fun h => congrArg _ (Except.ok.inj h), fun h => congrArg _ (Except.ok.inj h)⟩
  | error cause => exact iff_of_false (fun h => by cases h) (fun h => by cases h)

theorem stat_eq_ok_iff {path : Text} :
    d.stat path = .ok e ↔ ∃ p, d.lookup true path = .found p e := by
  rw [stat, mapError_eq_ok_iff, entry?_eq_ok_iff]

theorem statLink_eq_ok_iff {path : Text} :
    d.statLink path = .ok e ↔ ∃ p, d.lookup false path = .found p e := by
  rw [statLink, mapError_eq_ok_iff, entry?_eq_ok_iff]

/-- What is read is a file. -/
theorem lookup_of_read {path bytes : Text} (h : d.read path = .ok bytes) :
    ∃ q, d.lookup true path = .found q (.file bytes) := by
  rw [← entry?_eq_ok_iff]
  rw [read] at h
  split at h
  next hentry => rwa [Except.ok.inj h] at hentry
  next => cases h
  next => cases h

/-! ## Ends of a look-up -/

/-- A look-up ends by its first descent or behind a link, unless there are too many links. -/
theorem resolve_eq_cases {a : Arrival} (h : d.resolve follow budget here cs = a)
    (ha : a ≠ .failed .tooManyLinks) :
    d.descend follow here cs = a ∨
      ∃ left dir target rest, budget = left + 1 ∧
        d.descend follow here cs = .atLink dir target rest ∧
        d.afterLink follow left dir target rest = a := by
  cases hd : d.descend follow here cs with
  | found p e =>
    rw [resolve_of_descend hd (by simp)] at h
    exact .inl h
  | vacant p =>
    rw [resolve_of_descend hd (by simp)] at h
    exact .inl h
  | failed cause =>
    rw [resolve_of_descend hd (by simp)] at h
    exact .inl h
  | atLink dir target rest =>
    cases budget with
    | zero =>
      rw [resolve.eq_def] at h
      dsimp only at h
      rw [hd] at h
      exact absurd h.symm ha
    | succ left =>
      rw [resolve_of_link hd] at h
      exact .inr ⟨left, dir, target, rest, rfl, rfl, h⟩

/-- The root is no file. -/
theorem ne_nil_of_get?_file (h : d.get? q = some (.file content)) : q ≠ [] := by
  rintro rfl
  cases h

/-- Writing a file over keeps all passages. -/
theorem extends_put_file (h : d.get? q = some (.file content)) (content' : Text) :
    d.Extends (d.put q (.file content')) := by
  refine extends_put (ne_nil_of_get?_file h) (fun e he => ?_) _
  obtain rfl := Option.some.inj (h.symm.trans he)
  rfl

/-- The look-up ends at this place, and no passage is there: a file, or nothing. -/
def Arrival.EndsAt (q : Place) : Arrival → Prop
  | .found p (.file _) | .vacant p => p = q
  | _ => False

/-- A descent ends at the same place on a disk that has the same passages. -/
theorem descend_end {d' : Disk} (hext : d.Extends d') (h : (d.descend follow here cs).EndsAt q)
    (hq : d'.get? q = some e) (hlink : ∀ target, e ≠ .link target) :
    d'.descend follow here cs = .found q e := by
  induction cs generalizing here with
  | nil =>
    have hhere : here = q := by
      rw [descend_nil] at h
      cases hget : d.get? here with
      | none =>
        rw [hget] at h
        exact h
      | some e' =>
        rw [hget] at h
        cases e' with
        | file content => exact h
        | directory => exact h.elim
        | link target => exact h.elim
    rw [hhere, descend_nil, hq]
    rfl
  | cons c rest ih =>
    by_cases hhere : d.get? here = some .directory
    · have hhere' := hext.get? hhere rfl
      rcases descend_cons_cases here c with ⟨p, hstep⟩ | hstep | hstep
      · rw [hstep d _ _ hhere] at h
        rw [hstep _ _ _ hhere', ih h]
      · rw [hstep d _ _ hhere] at h
        exact h.elim
      rw [hstep d _ _ hhere, enter] at h
      rw [hstep _ _ _ hhere']
      cases hnext : d.get? (here ++ [c]) with
      | none =>
        rw [hnext] at h
        dsimp only at h
        split at h
        · rename_i hrest
          obtain rfl := List.isEmpty_iff.1 hrest
          obtain rfl : here ++ [c] = q := h
          exact enter_last hq fun _ => hlink
        · exact h.elim
      | some e' =>
        rw [hnext] at h
        cases e' with
        | link target =>
          dsimp only at h
          split at h <;> exact h.elim
        | directory =>
          rw [enter, hext.get? hnext rfl]
          exact ih h
        | file old =>
          dsimp only at h
          rw [descend_of_file hnext] at h
          split at h
          · rename_i hrest
            obtain rfl := List.isEmpty_iff.1 hrest
            obtain rfl : here ++ [c] = q := h
            exact enter_last hq fun _ => hlink
          · exact h.elim
    · rw [descend_of_not_directory hhere] at h
      exact h.elim

/-- **A look-up ends at the same place** on a disk that has the same passages. -/
theorem resolve_end {d' : Disk} (hext : d.Extends d')
    (h : (d.resolve follow budget here cs).EndsAt q) (hq : d'.get? q = some e)
    (hlink : ∀ target, e ≠ .link target) :
    d'.resolve follow budget here cs = .found q e := by
  induction budget using Nat.strongRecOn generalizing here cs with
  | ind budget ih =>
    generalize ha : d.resolve follow budget here cs = a at h
    obtain hd | ⟨left, dir, target, rest, rfl, hd, hafter⟩ :=
      resolve_eq_cases ha (by rintro rfl; exact h.elim)
    · exact resolve_of_descend (descend_end hext (hd ▸ h) hq hlink) (by simp) budget
    · have hlink' := (descend_extends hext (hd ▸ rfl)).trans hd
      rw [resolve_of_link hlink']
      exact ih left (Nat.lt_succ_self left) (by rw [← afterLink, hafter]; exact h)

/-- A path is refused before the disk is looked at, or it is followed from where it starts. -/
theorem lookup_cases (path : Text) :
    (∃ cause, cause ≠ .isDirectory ∧
      ∀ (d : Disk) (follow : Bool), d.lookup follow path = .failed cause) ∨
    ∃ rooted cs, ∀ (d : Disk) (follow : Bool),
      d.lookup follow path = d.resolve follow linkLimit (d.start rooted) cs := by
  by_cases hempty : path.isEmpty = true
  · exact .inl ⟨.missing, by simp, fun d follow => by rw [lookup, if_pos hempty]⟩
  by_cases hzero : path.contains 0 = true
  · exact .inl ⟨.badName, by simp, fun d follow => by rw [lookup, if_neg hempty, if_pos hzero]⟩
  by_cases hlong : longestPath ≤ path.length
  · exact .inl ⟨.nameTooLong, by simp, fun d follow => by
      rw [lookup, if_neg hempty, if_neg hzero, if_pos hlong]⟩
  · exact .inr ⟨_, _, fun d follow => by
      rw [lookup, if_neg hempty, if_neg hzero, if_neg hlong]; rfl⟩

theorem holdsOn_lookup (d : Disk) (follow : Bool) (path : Text) :
    (d.lookup follow path).HoldsOn d := by
  rcases lookup_cases path with ⟨cause, -, hfailed⟩ | ⟨rooted, cs, hresolve⟩
  · rw [hfailed]
    trivial
  · rw [hresolve]
    exact holdsOn_resolve d follow linkLimit (d.start rooted) cs

theorem get?_of_lookup {path : Text} (h : d.lookup follow path = .found q e) :
    d.get? q = some e := by
  have hholds := holdsOn_lookup d follow path
  rwa [h] at hholds

theorem lookup_end {d' : Disk} {path : Text} (hext : d.Extends d')
    (h : (d.lookup follow path).EndsAt q) (hq : d'.get? q = some e)
    (hlink : ∀ target, e ≠ .link target) : d'.lookup follow path = .found q e := by
  rcases lookup_cases path with ⟨cause, -, hfailed⟩ | ⟨rooted, cs, hresolve⟩
  · rw [hfailed] at h
    exact h.elim
  · rw [hresolve] at h ⊢
    rw [start, hext.cwd, ← start]
    exact resolve_end hext h hq hlink

/-- **A file that is written over is found where it was.** -/
theorem lookup_put_file {path : Text} (h : d.lookup follow path = .found q (.file content))
    (content' : Text) :
    (d.put q (.file content')).lookup follow path = .found q (.file content') := by
  have hq := get?_of_lookup h
  refine lookup_end (extends_put_file hq content') (by rw [h]; rfl) ?_ (by simp)
  rw [get?_put d (ne_nil_of_get?_file hq), if_pos rfl]

/-- One component before the end a descent has come to a directory or to a link, or it fails. -/
theorem descend_concat_cases (d : Disk) (here : Place) (xs : List Text) (y : Text) :
    (∃ p, d.descend true here xs = .found p .directory) ∨
      (∃ dir target rest, d.descend true here xs = .atLink dir target rest) ∨
      ∃ cause, d.descend true here (xs ++ [y]) = .failed cause := by
  induction xs generalizing here with
  | nil =>
    by_cases hhere : d.get? here = some .directory
    · exact .inl ⟨here, by rw [descend, hhere]⟩
    · exact .inr (.inr ⟨_, descend_of_not_directory hhere true y []⟩)
  | cons c rest ih =>
    rw [List.cons_append]
    by_cases hhere : d.get? here = some .directory
    · rcases descend_cons_cases here c with ⟨p, hstep⟩ | hstep | hstep
      · rw [hstep d _ _ hhere, hstep d _ _ hhere]
        exact ih p
      · exact .inr (.inr ⟨_, hstep d _ _ hhere⟩)
      rw [hstep d _ _ hhere, hstep d _ _ hhere, enter, enter]
      cases hnext : d.get? (here ++ [c]) with
      | none => exact .inr (.inr ⟨.missing, if_neg (by simp)⟩)
      | some e =>
        cases e with
        | link target => exact .inr (.inl ⟨here, target, rest, if_neg (by simp)⟩)
        | directory => exact ih (here ++ [c])
        | file old =>
          refine .inr (.inr ⟨.notDirectory, ?_⟩)
          dsimp only
          rw [descend_of_file hnext, if_neg (by simp)]
    · exact .inr (.inr ⟨_, descend_of_not_directory hhere true c _⟩)

/-- **What is found stands in a directory** that the path leads to without its last
component. -/
theorem resolve_of_concat {xs : List Text} {y : Text}
    (h : d.resolve true budget here (xs ++ [y]) = .found q e) :
    ∃ p, d.resolve true budget here xs = .found p .directory := by
  induction budget using Nat.strongRecOn generalizing here xs with
  | ind budget ih =>
    obtain ⟨p, hd⟩ | ⟨dir, target, rest, hd⟩ | ⟨cause, hd⟩ := descend_concat_cases d here xs y
    · exact ⟨p, resolve_of_descend hd (by simp) budget⟩
    · have hd' : d.descend true here (xs ++ [y]) = .atLink dir target (rest ++ [y]) :=
        descend_append (List.cons_ne_nil y []) true (by rw [hd]; rfl)
      obtain hfound | ⟨left, dir', target', rest', rfl, hlink, hafter⟩ := resolve_eq_cases h nofun
      · rw [hd'] at hfound
        cases hfound
      · obtain ⟨rfl, rfl, rfl⟩ := Arrival.atLink.inj (hd'.symm.trans hlink)
        rw [afterLink, ← List.append_assoc] at hafter
        rw [resolve_of_link hd]
        exact ih left (Nat.lt_succ_self left) hafter
    · rw [resolve_of_descend hd (by simp)] at h
      cases h

/-- The beginning of a path to a directory leads to a directory. -/
theorem resolve_of_append {xs ys : List Text} {p : Place}
    (h : d.resolve true budget here (xs ++ ys) = .found p .directory) :
    ∃ p', d.resolve true budget here xs = .found p' .directory := by
  induction ys using List.reverseRecOn generalizing p with
  | nil => exact ⟨p, by rwa [List.append_nil] at h⟩
  | append_singleton ys y ih =>
    rw [← List.append_assoc] at h
    obtain ⟨p', hp'⟩ := resolve_of_concat h
    exact ih hp'

/-! ## Links that are written over -/

/-- What is found is found with more links to spare. -/
theorem resolve_add (h : d.resolve follow budget here cs = .found q e) (more : Nat) :
    d.resolve follow (budget + more) here cs = .found q e := by
  induction budget using Nat.strongRecOn generalizing here cs with
  | ind budget ih =>
    obtain hd | ⟨left, dir, target, rest, rfl, hd, hafter⟩ := resolve_eq_cases h (by simp)
    · exact resolve_of_descend hd (by simp) _
    · rw [Nat.add_right_comm, resolve_of_link hd]
      exact ih left (Nat.lt_succ_self left) hafter

/-- A descent to a directory or a link goes the same way when another link becomes a file. -/
theorem descend_put_link {link : Text} (hq : d.get? q = some (.link link)) {a : Arrival}
    (h : d.descend true here cs = a)
    (ha : (∃ p, a = .found p .directory) ∨ ∃ dir target rest, a = .atLink dir target rest) :
    (d.put q (.file content)).descend true here cs = a ∨
      ∃ rest, a = .atLink q.dropLast link rest := by
  have hne : q ≠ [] := by
    rintro rfl
    cases hq
  have hother {p : Place} {e : DiskEntry} (hp : d.get? p = some e) (he : e ≠ .link link) :
      (d.put q (.file content)).get? p = some e := by
    rw [get?_put d hne, if_neg, hp]
    rintro rfl
    exact he (Option.some.inj (hp.symm.trans hq))
  induction cs generalizing here with
  | nil =>
    rw [descend_nil] at h
    cases hget : d.get? here with
    | none =>
      rw [hget] at h
      subst h
      simp at ha
    | some e =>
      rw [hget] at h
      subst h
      obtain ⟨p, hp⟩ | ⟨dir, target, rest, hlink⟩ := ha
      · obtain ⟨rfl, rfl⟩ := Arrival.found.inj hp
        exact .inl (by rw [descend_nil, hother hget (by simp)])
      · cases hlink
  | cons c rest ih =>
    by_cases hhere : d.get? here = some .directory
    · have hhere' := hother hhere (by simp)
      rcases descend_cons_cases here c with ⟨p, hstep⟩ | hstep | hstep
      · rw [hstep d _ _ hhere] at h
        rw [hstep _ _ _ hhere']
        exact ih h
      · rw [hstep d _ _ hhere] at h
        subst h
        simp at ha
      rw [hstep d _ _ hhere, enter] at h
      rw [hstep _ _ _ hhere', enter]
      cases hnext : d.get? (here ++ [c]) with
      | none =>
        rw [hnext] at h
        subst h
        dsimp only at ha
        split at ha <;> simp at ha
      | some e =>
        rw [hnext] at h
        by_cases he : e = .link link
        · subst he
          dsimp only at h
          rw [if_neg (by simp)] at h
          by_cases hlink : here ++ [c] = q
          · exact .inr ⟨rest, by rw [← h, ← hlink, List.dropLast_concat]⟩
          · refine .inl ?_
            rw [get?_put d hne, if_neg hlink, hnext]
            dsimp only
            rw [if_neg (by simp), h]
        · rw [hother hnext he]
          cases e with
          | link target => exact .inl h
          | directory => exact ih h
          | file old => exact ih h
    · rw [descend_of_not_directory hhere] at h
      subst h
      simp at ha

/-- **The way to a directory** does not lead through a link that leads to none, so that a file
may take the place of the link. -/
theorem resolve_put_link {link : Text} (hq : d.get? q = some (.link link))
    (hends : ∀ left p, d.afterLink true left q.dropLast link [] ≠ .found p .directory) {p : Place}
    (h : d.resolve true budget here cs = .found p .directory) :
    (d.put q (.file content)).resolve true budget here cs = .found p .directory := by
  induction budget using Nat.strongRecOn generalizing here cs with
  | ind budget ih =>
    obtain hd | ⟨left, dir, target, rest, rfl, hd, hafter⟩ := resolve_eq_cases h (by simp)
    · rcases descend_put_link hq hd (.inl ⟨p, rfl⟩) with hsame | ⟨rest, hlink⟩
      · exact resolve_of_descend hsame (by simp) budget
      · cases hlink
    · rcases descend_put_link hq hd (.inr ⟨_, _, _, rfl⟩) with hsame | ⟨rest', hlink⟩
      · rw [resolve_of_link hsame]
        exact ih left (Nat.lt_succ_self left) hafter
      · obtain ⟨rfl, rfl, rfl⟩ := Arrival.atLink.inj hlink
        obtain ⟨p', hp'⟩ := resolve_of_append hafter
        exact absurd (by rwa [afterLink, List.append_nil]) (hends left p')

end Disk
end Tarjuman
