/-
# Looking paths up

Where a look-up arrives depends only on entries that are there, so it arrives there
again on a disk that has more (`Disk.resolve_extends`).  A look-up that passes through a
directory goes on from that directory, however it was reached
(`Disk.resolve_append`).
-/

import Tarjuman.Proofs.PathComponents

namespace Tarjuman

/-- A directory or a link, through which a look-up can pass. -/
def DiskEntry.isPassage : DiskEntry → Bool
  | .directory | .link _ => true
  | .file _ => false

namespace Disk

/-- The entry at a place after one was put somewhere. -/
theorem get?_put (d : Disk) {p : Place} (hp : p ≠ []) (e : DiskEntry) (q : Place) :
    (d.put p e).get? q = if q = p then some e else d.get? q := by
  have hother (es : List (Place × DiskEntry)) (hq : q ≠ p) :
      (es.filter (·.1 != p)).find? (·.1 == q) = es.find? (·.1 == q) := by
    rw [List.find?_filter]
    congr 1
    funext x
    by_cases hx : x.1 = q
    · simp [hx, hq]
    · simp [hx]
  rw [get?, get?]
  split
  · rename_i hempty
    have hq : q ≠ p := fun heq => hp (heq ▸ List.isEmpty_iff.1 hempty)
    rw [if_neg hq]
  · by_cases hq : q = p
    · rw [if_pos hq, put, List.find?_cons_of_pos (by simp [hq])]
      rfl
    · rw [if_neg hq, put, List.find?_cons_of_neg (by simp [Ne.symm hq]), hother _ hq]

/-- The second disk has all directories and links of the first one. -/
structure Extends (d d' : Disk) : Prop where
  cwd : d'.cwd = d.cwd
  get? : ∀ {q : Place} {e : DiskEntry}, d.get? q = some e → e.isPassage = true →
    d'.get? q = some e

theorem Extends.trans {d₁ d₂ d₃ : Disk} (h : d₁.Extends d₂) (h' : d₂.Extends d₃) :
    d₁.Extends d₃ :=
  ⟨h'.cwd.trans h.cwd, fun hq hpass => h'.get? (h.get? hq hpass) hpass⟩

/-- Putting something where nothing or a file stands keeps all passages. -/
theorem extends_put {d : Disk} {p : Place} (hp : p ≠ [])
    (h : ∀ e, d.get? p = some e → e.isPassage = false) (e : DiskEntry) :
    d.Extends (d.put p e) := by
  refine ⟨rfl, fun {q e'} hq hpass => ?_⟩
  rw [get?_put d hp, if_neg fun heq => ?_, hq]
  rw [h e' (heq ▸ hq)] at hpass
  exact nomatch hpass

/-- At a directory or at a link to be followed. -/
def Arrival.arrived : Arrival → Bool
  | .found _ e => e.isPassage
  | .atLink .. => true
  | .vacant _ | .failed _ => false

/-- Enter the entry with a name and go on from there. -/
def enter (d : Disk) (follow : Bool) (here : Place) (c : Text) (rest : List Text) : Arrival :=
  match d.get? (here ++ [c]) with
  | none => if rest.isEmpty then .vacant (here ++ [c]) else .failed .missing
  | some (.link target) =>
    if rest.isEmpty && !follow then .found (here ++ [c]) (.link target)
    else .atLink here target rest
  | some _ => d.descend follow (here ++ [c]) rest

/-- At the end of the way a descent sees what is there. -/
theorem descend_nil (d : Disk) (follow : Bool) (here : Place) :
    d.descend follow here [] = (d.get? here).elim (.vacant here) (.found here) := by
  rw [descend]
  cases d.get? here <;> rfl

/-- At its last name a look-up sees what is there, be it a link that is not followed. -/
theorem enter_last {d : Disk} {follow : Bool} {here : Place} {c : Text} {e : DiskEntry}
    (hget : d.get? (here ++ [c]) = some e) (hlink : follow = true → ∀ target, e ≠ .link target) :
    d.enter follow here c [] = .found (here ++ [c]) e := by
  have hhere : d.descend follow (here ++ [c]) [] = .found (here ++ [c]) e := by
    rw [descend_nil, hget]
    rfl
  rw [enter, hget]
  cases e with
  | file content => exact hhere
  | directory => exact hhere
  | link target =>
    cases follow with
    | false => rfl
    | true => exact absurd rfl (hlink rfl target)

/-- One component further down. -/
theorem descend_cons {d : Disk} {here : Place} (hhere : d.get? here = some .directory)
    (follow : Bool) (c : Text) (rest : List Text) :
    d.descend follow here (c :: rest) =
      if c = "." then d.descend follow here rest
      else if c = ".." then d.descend follow here.dropLast rest
      else if longestName < c.length then .failed .nameTooLong
      else d.enter follow here c rest := by
  rw [descend, if_neg (not_not_intro hhere)]
  rfl

/-- A component leads to another place without a look at the disk, is refused, or names an
entry to be entered; which of these does not depend on the disk. -/
theorem descend_cons_cases (here : Place) (c : Text) :
    (∃ p, ∀ (d : Disk) (follow : Bool) (rest : List Text), d.get? here = some .directory →
      d.descend follow here (c :: rest) = d.descend follow p rest) ∨
    (∀ (d : Disk) (follow : Bool) (rest : List Text), d.get? here = some .directory →
      d.descend follow here (c :: rest) = .failed .nameTooLong) ∨
    ∀ (d : Disk) (follow : Bool) (rest : List Text), d.get? here = some .directory →
      d.descend follow here (c :: rest) = d.enter follow here c rest := by
  by_cases hhere : c = "."
  · exact .inl ⟨here, fun d follow rest h => by rw [descend_cons h, if_pos hhere]⟩
  by_cases habove : c = ".."
  · exact .inl ⟨here.dropLast, fun d follow rest h => by
      rw [descend_cons h, if_neg hhere, if_pos habove]⟩
  by_cases hlong : longestName < c.length
  · exact .inr (.inl fun d follow rest h => by
      rw [descend_cons h, if_neg hhere, if_neg habove, if_pos hlong])
  · exact .inr (.inr fun d follow rest h => by
      rw [descend_cons h, if_neg hhere, if_neg habove, if_neg hlong])

theorem descend_of_not_directory {d : Disk} {here : Place} (hhere : d.get? here ≠ some .directory)
    (follow : Bool) (c : Text) (rest : List Text) :
    d.descend follow here (c :: rest) = .failed .notDirectory := by
  rw [descend, if_pos hhere]

/-- There is nothing behind a file. -/
theorem descend_of_file {d : Disk} {here : Place} {content : Text}
    (hhere : d.get? here = some (.file content)) (follow : Bool) (cs : List Text) :
    d.descend follow here cs =
      if cs.isEmpty then .found here (.file content) else .failed .notDirectory := by
  cases cs with
  | nil =>
    rw [descend_nil, hhere]
    rfl
  | cons c rest => exact descend_of_not_directory (by simp [hhere]) follow c rest

theorem descend_extends {d d' : Disk} (h : d.Extends d') {follow : Bool} {here : Place}
    {cs : List Text} (ha : (d.descend follow here cs).arrived = true) :
    d'.descend follow here cs = d.descend follow here cs := by
  induction cs generalizing here with
  | nil =>
    rw [descend_nil] at ha
    cases he : d.get? here with
    | none =>
      rw [he] at ha
      exact absurd ha Bool.false_ne_true
    | some e =>
      rw [he] at ha
      rw [descend_nil, descend_nil, he, h.get? he ha]
  | cons c rest ih =>
    by_cases hhere : d.get? here = some .directory
    · rcases descend_cons_cases here c with ⟨p, hstep⟩ | hstep | hstep
      · rw [hstep d _ _ hhere] at ha ⊢
        rw [hstep d' _ _ (h.get? hhere rfl), ih ha]
      · rw [hstep d _ _ hhere] at ha
        exact nomatch ha
      rw [hstep d _ _ hhere, enter] at ha
      rw [hstep d _ _ hhere, hstep d' _ _ (h.get? hhere rfl), enter, enter]
      cases hnext : d.get? (here ++ [c]) with
      | none =>
        rw [hnext] at ha
        dsimp only at ha
        split at ha <;> exact nomatch ha
      | some e =>
        rw [hnext] at ha
        cases e with
        | link target => rw [h.get? hnext rfl]
        | directory =>
          rw [h.get? hnext rfl]
          exact ih ha
        | file content =>
          dsimp only at ha
          rw [descend_of_file hnext] at ha
          split at ha <;> exact nomatch ha
    · rw [descend_of_not_directory hhere] at ha
      exact nomatch ha

/-- Where a link leads: to its target, from the root if that is absolute, and then on. -/
def afterLink (d : Disk) (follow : Bool) (budget : Nat) (dir : Place) (target : Text)
    (rest : List Text) : Arrival :=
  d.resolve follow budget (if Path.isAbsolute target then [] else dir)
    (Path.components target ++ rest)

/-- Without a link on the way a look-up is one descent. -/
theorem resolve_of_descend {d : Disk} {follow : Bool} {here : Place} {cs : List Text}
    {a : Arrival} (h : d.descend follow here cs = a)
    (ha : ∀ dir target rest, a ≠ .atLink dir target rest) (budget : Nat) :
    d.resolve follow budget here cs = a := by
  rw [resolve.eq_def]
  dsimp only
  rw [h]
  cases a with
  | atLink dir target rest => exact absurd rfl (ha dir target rest)
  | found p e => rfl
  | vacant p => rfl
  | failed cause => rfl

theorem resolve_of_link {d : Disk} {follow : Bool} {here dir : Place} {cs rest : List Text}
    {target : Text} (h : d.descend follow here cs = .atLink dir target rest) (budget : Nat) :
    d.resolve follow (budget + 1) here cs = d.afterLink follow budget dir target rest := by
  rw [resolve.eq_def]
  dsimp only
  rw [h]
  rfl

/-- A look-up that arrives does so by its first descent or by following a link. -/
theorem resolve_cases {d : Disk} {follow : Bool} {budget : Nat} {here : Place} {cs : List Text}
    (h : (d.resolve follow budget here cs).arrived = true) :
    (∃ p e, d.descend follow here cs = .found p e) ∨
      ∃ left dir target rest, budget = left + 1 ∧
        d.descend follow here cs = .atLink dir target rest := by
  rw [resolve.eq_def] at h
  dsimp only at h
  cases hd : d.descend follow here cs with
  | found p e => exact .inl ⟨p, e, rfl⟩
  | atLink dir target rest =>
    rw [hd] at h
    cases budget with
    | zero => exact nomatch h
    | succ left => exact .inr ⟨left, dir, target, rest, rfl, rfl⟩
  | vacant p => rw [hd] at h; exact nomatch h
  | failed cause => rw [hd] at h; exact nomatch h

/-- **A look-up that arrives arrives there again** on a disk that has more. -/
theorem resolve_extends {d d' : Disk} (h : d.Extends d') {follow : Bool} {budget : Nat}
    {here : Place} {cs : List Text} (ha : (d.resolve follow budget here cs).arrived = true) :
    d'.resolve follow budget here cs = d.resolve follow budget here cs := by
  induction budget using Nat.strongRecOn generalizing here cs with
  | ind budget ih =>
    obtain ⟨p, e, hd⟩ | ⟨left, dir, target, rest, rfl, hd⟩ := resolve_cases ha
    · rw [resolve_of_descend hd nofun] at ha ⊢
      have hd' : d'.descend follow here cs = .found p e :=
        (descend_extends h (hd ▸ ha)).trans hd
      rw [resolve_of_descend hd' nofun]
    · have hd' : d'.descend follow here cs = .atLink dir target rest :=
        (descend_extends h (hd ▸ rfl)).trans hd
      rw [resolve_of_link hd] at ha ⊢
      rw [resolve_of_link hd']
      exact ih left (Nat.lt_succ_self left) ha

/-- What a descent that ends at `a` does when there is more to go behind it: it goes on
from a directory, and from nothing else, and a link has to be followed first. -/
def goOn (d : Disk) (follow : Bool) (ys : List Text) : Arrival → Option Arrival
  | .found p .directory => some (d.descend follow p ys)
  | .atLink dir target rest => some (.atLink dir target (rest ++ ys))
  | _ => none

theorem descend_append {d : Disk} {here : Place} {xs ys : List Text} (hys : ys ≠ [])
    (follow : Bool) {a : Arrival} (h : d.goOn follow ys (d.descend true here xs) = some a) :
    d.descend follow here (xs ++ ys) = a := by
  induction xs generalizing here with
  | nil =>
    rw [descend_nil] at h
    cases hhere : d.get? here with
    | none => rw [hhere] at h; exact nomatch h
    | some e =>
      rw [hhere] at h
      cases e with
      | directory => exact Option.some.inj h
      | file content => exact nomatch h
      | link target => exact nomatch h
  | cons c rest ih =>
    rw [List.cons_append]
    by_cases hhere : d.get? here = some .directory
    · rcases descend_cons_cases here c with ⟨p, hstep⟩ | hstep | hstep
      · rw [hstep d _ _ hhere] at h ⊢
        exact ih h
      · rw [hstep d _ _ hhere] at h
        exact nomatch h
      rw [hstep d _ _ hhere, enter] at h ⊢
      cases hnext : d.get? (here ++ [c]) with
      | none =>
        rw [hnext] at h
        dsimp only at h
        split at h <;> exact nomatch h
      | some e =>
        rw [hnext] at h
        cases e with
        | link target =>
          dsimp only at h ⊢
          rw [Bool.not_true, Bool.and_false, if_neg nofun] at h
          rw [if_neg (by simp [hys])]
          exact Option.some.inj h
        | file content => exact ih h
        | directory => exact ih h
    · rw [descend_of_not_directory hhere] at h
      exact nomatch h

/-- **A look-up through a directory goes on from there**, with the links that are left. -/
theorem resolve_append {d : Disk} {budget : Nat} {here p : Place} {xs ys : List Text}
    (hys : ys ≠ []) (h : d.resolve true budget here xs = .found p .directory) (follow : Bool) :
    ∃ left, d.resolve follow budget here (xs ++ ys) = d.resolve follow left p ys := by
  induction budget using Nat.strongRecOn generalizing here xs with
  | ind budget ih =>
    have ha : (d.resolve true budget here xs).arrived = true := h ▸ rfl
    obtain ⟨q, e, hd⟩ | ⟨left, dir, target, rest, rfl, hd⟩ := resolve_cases ha
    · rw [resolve_of_descend hd nofun] at h
      obtain ⟨rfl, rfl⟩ := Arrival.found.inj h
      have happend : d.descend follow here (xs ++ ys) = d.descend follow q ys :=
        descend_append hys follow (by rw [hd]; rfl)
      refine ⟨budget, ?_⟩
      rw [resolve.eq_def, resolve.eq_def d follow budget q ys]
      dsimp only
      rw [happend]
    · rw [resolve_of_link hd] at h
      have happend : d.descend follow here (xs ++ ys) = .atLink dir target (rest ++ ys) :=
        descend_append hys follow (by rw [hd]; rfl)
      rw [resolve_of_link happend, afterLink, ← List.append_assoc]
      exact ih left (Nat.lt_succ_self left) h

/-- What an arrival says about the place it came to holds on the disk. -/
def Arrival.HoldsOn (d : Disk) : Arrival → Prop
  | .found p e => d.get? p = some e
  | .vacant p => d.get? p = none
  | _ => True

theorem holdsOn_descend (d : Disk) (follow : Bool) (here : Place) (cs : List Text) :
    (d.descend follow here cs).HoldsOn d := by
  -- The disk was asked for the place where a descent ends, in each of the cases.
  fun_induction descend d follow here cs <;> first | assumption | trivial

/-- **A look-up tells what stands where it ends.** -/
theorem holdsOn_resolve (d : Disk) (follow : Bool) (budget : Nat) (here : Place)
    (cs : List Text) : (d.resolve follow budget here cs).HoldsOn d := by
  fun_induction resolve d follow budget here cs with
  | case1 => trivial
  | case2 here cs dir target rest hlink budget ih => exact ih
  | case3 budget here cs hends => exact holdsOn_descend d follow here cs

/-- The place where the look-up of a path starts. -/
def start (d : Disk) (rooted : Bool) : Place := if rooted then [] else Path.components d.cwd

/-- A path that is not refused before it is looked up. -/
structure Admissible (path : Text) : Prop where
  short : path.length < longestPath
  noZero : 0 ∉ path

/-- What stands above an admissible path is admissible. -/
theorem Admissible.dropLast {rooted : Bool} {cs : List Text} {c : Text} (hcs : cs ≠ [])
    (h : Admissible (Path.ofComponents rooted (cs ++ [c]))) :
    Admissible (Path.ofComponents rooted cs) := by
  obtain ⟨short, noZero⟩ := h
  have hlead : Path.lead rooted cs = Path.ofComponents rooted cs ++ [Path.slash] :=
    if_neg (by simp [hcs])
  rw [Path.ofComponents_concat, hlead, List.append_assoc] at short noZero
  rw [List.length_append] at short
  exact ⟨by omega, fun h => noZero (List.mem_append_left _ h)⟩

/-- A path with more components is admissible if there is room for them. -/
theorem Admissible.append {rooted : Bool} {cs ns : List Text}
    (h : Admissible (Path.ofComponents rooted cs)) (hns : ∀ n ∈ ns, 0 ∉ n)
    (hroom : (Path.ofComponents rooted cs).length + ns.flatten.length + ns.length < longestPath) :
    Admissible (Path.ofComponents rooted (cs ++ ns)) := by
  induction ns generalizing cs with
  | nil => rwa [List.append_nil]
  | cons n ns ih =>
    obtain ⟨hn, hns⟩ := List.forall_mem_cons.1 hns
    rw [List.flatten_cons, List.length_append, List.length_cons] at hroom
    have hlen : (Path.ofComponents rooted (cs ++ [n])).length ≤
        (Path.ofComponents rooted cs).length + 1 + n.length := Path.length_ofComponents_le rooted
    have hmore : Admissible (Path.ofComponents rooted (cs ++ [n])) := by
      refine ⟨by omega, fun h0 => ?_⟩
      rcases Path.mem_ofComponents rooted h0 with h0 | h0 | h0
      · exact h.noZero h0
      · exact absurd h0 (by decide)
      · exact hn h0
    have hall := ih hmore hns (by omega)
    rwa [List.append_assoc] at hall

theorem lookup_ofComponents (d : Disk) (follow rooted : Bool) {cs : List Text} {c : Text}
    (hcs : ∀ c ∈ cs, Path.Part c) (hc : Path.Part c)
    (h : Admissible (Path.ofComponents rooted (cs ++ [c]))) :
    d.lookup follow (Path.ofComponents rooted (cs ++ [c])) =
      d.resolve follow linkLimit (d.start rooted) (cs ++ [c]) := by
  have hne : (Path.ofComponents rooted (cs ++ [c])).isEmpty = false :=
    List.isEmpty_eq_false_iff.2 (Path.ofComponents_ne_nil rooted hc)
  have hzero : (Path.ofComponents rooted (cs ++ [c])).contains 0 = false := by
    simp [h.noZero]
  rw [lookup, hne, hzero, if_neg nofun, if_neg nofun, if_neg (Nat.not_le.2 h.short),
    Path.not_endsWith_ofComponents rooted hc, Path.isAbsolute_ofComponents rooted hcs hc,
    Path.components_ofComponents rooted hcs hc]
  exact congrArg _ (List.append_nil _)

/-- The path with these components leads to a directory. -/
structure LeadsTo (d : Disk) (rooted : Bool) (cs : List Text) (base : Place) : Prop where
  part : ∀ c ∈ cs, Path.Part c
  resolve : d.resolve true linkLimit (d.start rooted) cs = .found base .directory

namespace LeadsTo

variable {d d' : Disk} {rooted : Bool} {cs ns : List Text} {base : Place}

theorem get? (h : d.LeadsTo rooted cs base) : d.get? base = some .directory := by
  have hholds := holdsOn_resolve d true linkLimit (d.start rooted) cs
  rwa [h.resolve] at hholds

theorem mono (h : d.LeadsTo rooted cs base) (hd : d.Extends d') : d'.LeadsTo rooted cs base := by
  have hstart : d'.start rooted = d.start rooted := by rw [start, start, hd.cwd]
  refine ⟨h.part, ?_⟩
  rw [hstart, resolve_extends hd (h.resolve ▸ rfl), h.resolve]

/-- The path of a directory that leads to itself. -/
theorem lookup_self (h : d.LeadsTo rooted cs base) (hcs : cs ≠ [])
    (ha : Admissible (Path.ofComponents rooted cs)) :
    d.lookup true (Path.ofComponents rooted cs) = .found base .directory := by
  obtain ⟨r, c, rfl⟩ := List.eq_nil_or_concat cs |>.resolve_left hcs
  rw [List.concat_eq_append] at h ha ⊢
  obtain ⟨hr, hc⟩ := List.forall_mem_append.1 h.part
  rw [lookup_ofComponents d true rooted hr (hc c List.mem_cons_self) ha, h.resolve]

/-- **Below the directory a look-up starts there.** -/
theorem lookup (h : d.LeadsTo rooted cs base) {n : Text} (hns : ∀ c ∈ ns ++ [n], Path.Part c)
    (ha : Admissible (Path.ofComponents rooted (cs ++ (ns ++ [n])))) (follow : Bool) :
    ∃ left, d.lookup follow (Path.ofComponents rooted (cs ++ (ns ++ [n]))) =
      d.resolve follow left base (ns ++ [n]) := by
  obtain ⟨hparts, hn⟩ := List.forall_mem_append.1 hns
  have hall : ∀ c ∈ cs ++ ns, Path.Part c := List.forall_mem_append.2 ⟨h.part, hparts⟩
  have happend : cs ++ (ns ++ [n]) = (cs ++ ns) ++ [n] := (List.append_assoc ..).symm
  obtain ⟨left, hleft⟩ :=
    resolve_append (List.concat_ne_nil n ns) h.resolve follow
  refine ⟨left, ?_⟩
  rw [happend] at ha ⊢
  rw [lookup_ofComponents d follow rooted hall (hn n List.mem_cons_self) ha, ← happend, hleft]

end LeadsTo

/-- A directory seen from itself. -/
theorem resolve_nil_of_here {d : Disk} {budget : Nat} {here base : Place}
    (h : d.resolve true budget here [Text.ofString "."] = .found base .directory) :
    d.resolve true budget here [] = .found base .directory := by
  by_cases hhere : d.get? here = some .directory
  · have hfound : d.descend true here [] = .found here .directory := by
      rw [descend_nil, hhere]
      rfl
    have hdot : d.descend true here [Text.ofString "."] = .found here .directory := by
      rw [descend_cons hhere, if_pos rfl, hfound]
    rw [resolve_of_descend hdot nofun] at h
    rw [resolve_of_descend hfound nofun, h]
  · rw [resolve_of_descend (descend_of_not_directory hhere true _ []) nofun] at h
    exact nomatch h

/-- A path that leads somewhere is not refused. -/
theorem admissible_of_lookup {d : Disk} {follow : Bool} {path : Text} {q : Place} {e : DiskEntry}
    (h : d.lookup follow path = .found q e) : Admissible path := by
  rw [Disk.lookup] at h
  split at h
  · cases h
  split at h
  · cases h
  rename_i hzero
  split at h
  · cases h
  rename_i hlong
  exact ⟨Nat.not_le.1 hlong, fun h0 => hzero (List.contains_iff_mem.2 h0)⟩

/-- A clean path that is looked up as a directory leads there. -/
theorem leadsTo_of_lookup {d : Disk} {dir : Text} {base : Place}
    (h : d.lookup true (Path.clean dir) = .found base .directory) :
    Admissible (Path.clean dir) ∧
      d.LeadsTo (Path.isAbsolute dir) (Path.cleanComponents dir) base := by
  have hadm := admissible_of_lookup h
  refine ⟨hadm, fun c hc => Path.part_of_mem_cleanComponents hc, ?_⟩
  rw [Path.clean] at h hadm
  rcases List.eq_nil_or_concat (Path.cleanComponents dir) with hnil | ⟨r, c, hconcat⟩
  · rw [hnil] at h ⊢
    have hhere : d.resolve true linkLimit (d.start (Path.isAbsolute dir)) [Text.ofString "."] =
        .found base .directory := by
      cases hrooted : Path.isAbsolute dir <;> rw [hrooted] at h <;> exact h
    exact resolve_nil_of_here hhere
  · have hall : ∀ x ∈ r ++ [c], Path.Part x := fun x hx =>
      Path.part_of_mem_cleanComponents (by rw [hconcat, List.concat_eq_append]; exact hx)
    obtain ⟨hr, hc⟩ := List.forall_mem_append.1 hall
    rw [hconcat, List.concat_eq_append] at h hadm ⊢
    rwa [lookup_ofComponents d true _ hr (hc c List.mem_cons_self) hadm] at h

end Disk
end Tarjuman
