/-
# Paths and their components

A path that is put together from components has those components again
(`Path.components_ofComponents`), and joining plain names to a directory adds them behind
the cleaned components of the directory, whatever the directory looks like
(`Path.join_cons`).  What stands above such a path is the path without its last
component.
-/

import Tarjuman.Files.Disk

namespace Tarjuman

namespace Text

theorem splitOn_ne_nil (sep : UInt8) (s : Text) : splitOn sep s ≠ [] := by
  cases s with
  | nil => exact nofun
  | cons b r =>
    rw [splitOn]
    split
    · exact nofun
    · split <;> exact nofun

theorem splitOn_cons_of_eq (sep : UInt8) (r : Text) :
    splitOn sep (sep :: r) = [] :: splitOn sep r := by
  rw [splitOn]
  split
  · rename_i h
    exact absurd h (splitOn_ne_nil sep r)
  · rename_i piece more h
    rw [if_pos (beq_self_eq_true sep), h]

theorem splitOn_cons_of_ne {sep b : UInt8} (h : b ≠ sep) {r piece : Text} {more : List Text}
    (hr : splitOn sep r = piece :: more) : splitOn sep (b :: r) = (b :: piece) :: more := by
  rw [splitOn, hr]
  exact if_neg fun heq => h (eq_of_beq heq)

/-- Splitting goes on behind a separator. -/
theorem splitOn_append (sep : UInt8) (s t : Text) :
    splitOn sep (s ++ sep :: t) = splitOn sep s ++ splitOn sep t := by
  induction s with
  | nil => exact splitOn_cons_of_eq sep t
  | cons b r ih =>
    rw [List.cons_append]
    by_cases hb : b = sep
    · rw [hb, splitOn_cons_of_eq, splitOn_cons_of_eq, ih]
      rfl
    · obtain ⟨piece, more, hr⟩ := List.exists_cons_of_ne_nil (splitOn_ne_nil sep r)
      rw [splitOn_cons_of_ne hb hr, splitOn_cons_of_ne hb (ih.trans (congrArg (· ++ _) hr))]
      rfl

theorem splitOn_of_not_mem {sep : UInt8} {s : Text} (h : sep ∉ s) : splitOn sep s = [s] := by
  induction s with
  | nil => rfl
  | cons b r ih =>
    exact splitOn_cons_of_ne (List.ne_of_not_mem_cons h).symm (ih (List.not_mem_of_not_mem_cons h))

/-- The pieces hold no separator. -/
theorem not_mem_of_mem_splitOn {sep : UInt8} {s piece : Text} (h : piece ∈ splitOn sep s) :
    sep ∉ piece := by
  induction s generalizing piece with
  | nil =>
    rw [List.mem_singleton.1 h]
    exact List.not_mem_nil
  | cons b r ih =>
    by_cases hb : b = sep
    · rw [hb, splitOn_cons_of_eq] at h
      rcases List.mem_cons.1 h with rfl | h
      · exact List.not_mem_nil
      · exact ih h
    · obtain ⟨first, more, hr⟩ := List.exists_cons_of_ne_nil (splitOn_ne_nil sep r)
      rw [splitOn_cons_of_ne hb hr] at h
      rw [hr] at ih
      rcases List.mem_cons.1 h with rfl | h
      · exact fun hmem => (List.mem_cons.1 hmem).elim (fun heq => hb heq.symm)
          (ih List.mem_cons_self)
      · exact ih (List.mem_cons_of_mem _ h)

theorem join_cons_cons (a b : Text) (r : List Text) :
    join "/" (a :: b :: r) = a ++ Path.slash :: join "/" (b :: r) := rfl

theorem join_singleton (a : Text) : join "/" [a] = a := List.append_nil a

theorem join_append {cs ds : List Text} (hcs : cs ≠ []) (hds : ds ≠ []) :
    join "/" (cs ++ ds) = join "/" cs ++ Path.slash :: join "/" ds := by
  induction cs with
  | nil => exact absurd rfl hcs
  | cons a r ih =>
    cases r with
    | nil =>
      obtain ⟨d, ds, rfl⟩ := List.exists_cons_of_ne_nil hds
      rw [List.singleton_append, join_cons_cons, join_singleton]
    | cons b r =>
      rw [List.cons_append, List.cons_append, join_cons_cons, join_cons_cons, ← List.cons_append,
        ih nofun, List.append_assoc]
      rfl

end Text

namespace Path

/-- A text that can stand between two slashes. -/
structure Part (c : Text) : Prop where
  ne_nil : c ≠ []
  noSlash : slash ∉ c

/-- The name of an entry: neither the directory itself nor the one above. -/
structure Plain (c : Text) : Prop extends Part c where
  notHere : c ≠ Text.ofString "."
  notAbove : c ≠ Text.ofString ".."

theorem part_of_mem_components {p c : Text} (h : c ∈ components p) : Part c := by
  obtain ⟨hmem, hne⟩ := List.mem_filter.1 h
  refine ⟨fun heq => ?_, Text.not_mem_of_mem_splitOn hmem⟩
  rw [heq] at hne
  exact nomatch hne

theorem components_append (s t : Text) :
    components (s ++ slash :: t) = components s ++ components t := by
  rw [components, Text.splitOn_append, List.filter_append]
  rfl

theorem components_part {c : Text} (h : Part c) : components c = [c] := by
  rw [components, Text.splitOn_of_not_mem h.noSlash]
  exact List.filter_cons_of_pos (by simp [h.ne_nil])

theorem components_join {cs : List Text} (h : ∀ c ∈ cs, Part c) :
    components (Text.join "/" cs) = cs := by
  induction cs with
  | nil => rfl
  | cons c r ih =>
    obtain ⟨hc, hr⟩ := List.forall_mem_cons.1 h
    cases r with
    | nil => rw [Text.join_singleton, components_part hc]
    | cons d r =>
      rw [Text.join_cons_cons, components_append, components_part hc, ih hr]
      rfl

/-- Slashes at the beginning are no components. -/
theorem components_slashes {t : Text} (h : ∀ b ∈ t, b = slash) (s : Text) :
    components (t ++ s) = components s := by
  induction t with
  | nil => rfl
  | cons b t ih =>
    obtain ⟨rfl, ht⟩ := List.forall_mem_cons.1 h
    exact (components_append [] (t ++ s)).trans (ih ht)

/-- Behind a path without the slashes at its end stand the slashes. -/
theorem exists_slashes (p : Text) :
    ∃ t, p = Disk.withoutSlash p ++ t ∧ ∀ b ∈ t, b = slash := by
  have hslashes : ∀ b ∈ (p.reverse.takeWhile (· == slash)).reverse, b = slash := fun b hb =>
    eq_of_beq (List.all_eq_true.1 List.all_takeWhile b (List.mem_reverse.1 hb))
  have hparts : p = (p.reverse.dropWhile (· == slash)).reverse ++
      (p.reverse.takeWhile (· == slash)).reverse := by
    rw [← List.reverse_append, List.takeWhile_append_dropWhile, List.reverse_reverse]
  rw [Disk.withoutSlash]
  split
  · rename_i hempty
    rw [hempty, List.nil_append] at hparts
    rw [← hparts] at hslashes
    exact ⟨p.drop 1, (List.take_append_drop 1 p).symm,
      fun b hb => hslashes b (List.mem_of_mem_drop hb)⟩
  · exact ⟨_, hparts, hslashes⟩

/-- Slashes at the end of a path are no components. -/
theorem components_withoutSlash (p : Text) : components (Disk.withoutSlash p) = components p := by
  obtain ⟨t, hp, hslashes⟩ := exists_slashes p
  generalize Disk.withoutSlash p = s at hp
  subst hp
  cases t with
  | nil => rw [List.append_nil]
  | cons b t =>
    obtain ⟨rfl, ht⟩ := List.forall_mem_cons.1 hslashes
    have hnone : components t = [] := by
      rw [← List.append_nil t, components_slashes ht]
      rfl
    rw [components_append, hnone, List.append_nil]

theorem isAbsolute_append {s : Text} (h : s ≠ []) (t : Text) :
    isAbsolute (s ++ t) = isAbsolute s := by
  obtain ⟨b, r, rfl⟩ := List.exists_cons_of_ne_nil h
  rfl

theorem isAbsolute_part {c : Text} (h : Part c) (t : Text) : isAbsolute (c ++ t) = false := by
  obtain ⟨b, r, rfl⟩ := List.exists_cons_of_ne_nil h.ne_nil
  have hb : b ≠ slash := (List.ne_of_not_mem_cons h.noSlash).symm
  exact beq_eq_false_iff_ne.2 fun heq => hb (Option.some.inj heq)

/-- Cleaning keeps parts. -/
theorem part_cleanStep {rooted : Bool} {done : List Text} {c : Text} (hdone : ∀ c ∈ done, Part c)
    (hc : Part c) : ∀ d ∈ cleanStep rooted done c, Part d := by
  rw [cleanStep.eq_def]
  split
  · exact hdone
  split
  · split
    · split
      · exact nofun
      · exact List.forall_mem_singleton.2 hc
    · split
      · exact List.forall_mem_cons.2 ⟨hc, hdone⟩
      · exact (List.forall_mem_cons.1 hdone).2
  · exact List.forall_mem_cons.2 ⟨hc, hdone⟩

theorem part_of_mem_cleanComponents {p c : Text} (h : c ∈ cleanComponents p) : Part c := by
  have hfold (cs done : List Text) (hcs : ∀ c ∈ cs, Part c) (hdone : ∀ c ∈ done, Part c) :
      ∀ c ∈ cs.foldl (cleanStep (isAbsolute p)) done, Part c := by
    induction cs generalizing done with
    | nil => exact hdone
    | cons d r ih =>
      obtain ⟨hd, hr⟩ := List.forall_mem_cons.1 hcs
      exact ih _ hr (part_cleanStep hdone hd)
  exact hfold _ [] (fun _ => part_of_mem_components) nofun c (List.mem_reverse.1 h)

/-- Plain names are kept. -/
theorem foldl_cleanStep_plain (rooted : Bool) {cs : List Text} (h : ∀ c ∈ cs, Plain c)
    (done : List Text) : cs.foldl (cleanStep rooted) done = cs.reverse ++ done := by
  induction cs generalizing done with
  | nil => rfl
  | cons c r ih =>
    obtain ⟨hc, hr⟩ := List.forall_mem_cons.1 h
    have hstep : cleanStep rooted done c = c :: done := by
      rw [cleanStep.eq_def, if_neg hc.notHere, if_neg hc.notAbove]
    rw [List.foldl_cons, hstep, ih hr, List.reverse_cons, List.append_assoc]
    rfl

theorem clean_of_components {p : Text} {cs ds : List Text} (h : components p = cs ++ ds)
    (hds : ∀ c ∈ ds, Plain c) :
    clean p =
      ofComponents (isAbsolute p) ((cs.foldl (cleanStep (isAbsolute p)) []).reverse ++ ds) := by
  rw [clean, cleanComponents, h, List.foldl_append, foldl_cleanStep_plain _ hds,
    List.reverse_append, List.reverse_reverse]

/-- **Plain names joined to a directory** stand behind its cleaned components. -/
theorem join_cons (dir : Text) {cs : List Text} (hcs : cs ≠ []) (h : ∀ c ∈ cs, Plain c) :
    join (dir :: cs) = ofComponents (isAbsolute dir) (cleanComponents dir ++ cs) := by
  obtain ⟨c, r, rfl⟩ := List.exists_cons_of_ne_nil hcs
  have hparts : components (Text.join "/" (c :: r)) = c :: r :=
    components_join fun c hc => (h c hc).toPart
  have hkeep (d : Text) (hd : d ≠ []) (r : List Text) :
      join (d :: r) = clean (Text.join "/" (d :: r)) := by
    rw [join, List.dropWhile_cons_of_neg (by simp [hd])]
  cases dir with
  | nil =>
    have hc : Part c := (h c List.mem_cons_self).toPart
    have hrelative : isAbsolute (Text.join "/" (c :: r)) = false := by
      cases r with
      | nil => exact isAbsolute_part hc []
      | cons d r => exact isAbsolute_part hc _
    have hskip : join ([] :: c :: r) = join (c :: r) := by
      rw [join, List.dropWhile_cons_of_pos rfl, ← join]
    have hclean := clean_of_components (show components _ = [] ++ (c :: r) from hparts) h
    rw [hskip, hkeep c hc.ne_nil, hclean, hrelative]
    rfl
  | cons b dir =>
    have hall : components ((b :: dir) ++ slash :: Text.join "/" (c :: r)) =
        components (b :: dir) ++ c :: r := by
      rw [components_append, hparts]
    rw [hkeep _ (List.cons_ne_nil b dir), Text.join_cons_cons, clean_of_components hall h,
      isAbsolute_append (List.cons_ne_nil b dir)]
    rfl

/-- What stands before one more component. -/
def lead (rooted : Bool) (cs : List Text) : Text :=
  if cs.isEmpty then (if rooted then [slash] else []) else ofComponents rooted cs ++ [slash]

theorem ofComponents_concat (rooted : Bool) (cs : List Text) (c : Text) :
    ofComponents rooted (cs ++ [c]) = lead rooted cs ++ c := by
  cases cs with
  | nil =>
    cases rooted with
    | false => exact Text.join_singleton c
    | true => exact congrArg (slash :: ·) (Text.join_singleton c)
  | cons d r =>
    have hjoin : Text.join "/" (d :: (r ++ [c])) = Text.join "/" (d :: r) ++ slash :: c := by
      rw [← List.cons_append, Text.join_append (List.cons_ne_nil d r) (List.cons_ne_nil c []),
        Text.join_singleton]
    cases rooted with
    | false =>
      show Text.join "/" (d :: (r ++ [c])) = (Text.join "/" (d :: r) ++ [slash]) ++ c
      rw [hjoin, List.append_assoc]
      rfl
    | true =>
      show slash :: Text.join "/" (d :: (r ++ [c])) =
        (slash :: Text.join "/" (d :: r) ++ [slash]) ++ c
      rw [hjoin, List.append_assoc]
      rfl

/-- The text before one more component is nothing or ends with a slash. -/
theorem lead_eq (rooted : Bool) (cs : List Text) :
    (lead rooted cs = [] ∧ cs = []) ∨
      lead rooted cs = (if cs.isEmpty then [] else ofComponents rooted cs) ++ [slash] := by
  cases cs with
  | nil =>
    cases rooted with
    | false => exact .inl ⟨rfl, rfl⟩
    | true => exact .inr rfl
  | cons d r => exact .inr rfl

section Concat

variable (rooted : Bool) {cs : List Text} {c : Text}

theorem components_ofComponents (hcs : ∀ c ∈ cs, Part c) (hc : Part c) :
    components (ofComponents rooted (cs ++ [c])) = cs ++ [c] := by
  have hjoin : components (Text.join "/" (cs ++ [c])) = cs ++ [c] :=
    components_join (List.forall_mem_append.2 ⟨hcs, List.forall_mem_singleton.2 hc⟩)
  cases rooted with
  | false =>
    rw [ofComponents, if_neg nofun, if_neg (by simp), hjoin]
  | true => exact (components_append [] _).trans hjoin

theorem isAbsolute_ofComponents (hcs : ∀ c ∈ cs, Part c) (hc : Part c) :
    isAbsolute (ofComponents rooted (cs ++ [c])) = rooted := by
  cases rooted with
  | true => rfl
  | false =>
    rw [ofComponents, if_neg nofun, if_neg (by simp)]
    cases cs with
    | nil => exact isAbsolute_part hc []
    | cons d r =>
      rw [Text.join_append (List.cons_ne_nil d r) (List.cons_ne_nil c [])]
      have hd : Part d := hcs d List.mem_cons_self
      cases r with
      | nil =>
        rw [Text.join_singleton]
        exact isAbsolute_part hd _
      | cons e r =>
        rw [Text.join_cons_cons, List.append_assoc]
        exact isAbsolute_part hd _

theorem ofComponents_ne_nil (hc : Part c) : ofComponents rooted (cs ++ [c]) ≠ [] := by
  rw [ofComponents_concat]
  exact List.append_ne_nil_of_right_ne_nil _ hc.ne_nil

theorem ofComponents_ne_nil_of_parts (hcs : ∀ c ∈ cs, Part c) : ofComponents rooted cs ≠ [] := by
  rcases List.eq_nil_or_concat cs with rfl | ⟨r, c, rfl⟩
  · cases rooted <;> exact nofun
  · rw [List.concat_eq_append] at hcs ⊢
    exact ofComponents_ne_nil rooted (hcs c (List.mem_append_right r List.mem_cons_self))

/-- There is no slash at the end to be left out. -/
theorem dropWhile_reverse_append (s : Text) (hc : Part c) :
    (s ++ c).reverse.dropWhile (· == slash) = c.reverse ++ s.reverse := by
  rw [List.reverse_append]
  have hne : c.reverse ≠ [] := fun h => hc.ne_nil (List.reverse_eq_nil_iff.1 h)
  obtain ⟨b, r, hb⟩ := List.exists_cons_of_ne_nil hne
  have hmem : b ∈ c := List.mem_reverse.1 (hb ▸ List.mem_cons_self)
  rw [hb, List.cons_append]
  exact List.dropWhile_cons_of_neg fun h => hc.noSlash (eq_of_beq h ▸ hmem)

/-- **What stands above a path** is the path without its last component. -/
theorem above_ofComponents (hc : Part c) :
    Disk.above (ofComponents rooted (cs ++ [c])) =
      if cs.isEmpty then [] else ofComponents rooted cs := by
  have hall : ∀ b ∈ c.reverse, (b != slash) = true := fun b hb =>
    bne_iff_ne.2 fun heq => hc.noSlash (heq ▸ List.mem_reverse.1 hb)
  rw [Disk.above, ofComponents_concat, dropWhile_reverse_append _ hc,
    List.dropWhile_append_of_pos hall]
  rcases lead_eq rooted cs with ⟨hlead, rfl⟩ | hlead
  · rw [hlead]
    rfl
  · rw [hlead, List.reverse_append, List.reverse_singleton, List.singleton_append,
      List.dropWhile_cons_of_neg (by simp), List.drop_one, List.tail_cons, List.reverse_reverse]

theorem withoutSlash_append (s : Text) (hc : Part c) : Disk.withoutSlash (s ++ c) = s ++ c := by
  rw [Disk.withoutSlash, dropWhile_reverse_append s hc, ← List.reverse_append, List.reverse_reverse]
  split
  · rename_i h
    exact absurd h (List.append_ne_nil_of_right_ne_nil s hc.ne_nil)
  · rfl

theorem withoutSlash_ofComponents (hc : Part c) :
    Disk.withoutSlash (ofComponents rooted (cs ++ [c])) = ofComponents rooted (cs ++ [c]) := by
  rw [ofComponents_concat]
  exact withoutSlash_append _ hc

theorem not_endsWith_append (s : Text) (hc : Part c) : Text.endsWith (s ++ c) "/" = false := by
  refine Bool.eq_false_iff.2 fun h => ?_
  obtain ⟨t, ht⟩ := List.isSuffixOf_iff_suffix.1 h
  have hc' := List.getLast?_eq_some_getLast hc.ne_nil
  have hlast := congrArg List.getLast? ht
  rw [List.getLast?_append, List.getLast?_append, hc'] at hlast
  have hslash : slash = c.getLast hc.ne_nil := Option.some.inj hlast
  exact hc.noSlash (hslash ▸ List.getLast_mem hc.ne_nil)

theorem not_endsWith_ofComponents (hc : Part c) :
    Text.endsWith (ofComponents rooted (cs ++ [c])) "/" = false := by
  rw [ofComponents_concat]
  exact not_endsWith_append _ hc

theorem length_ofComponents_le :
    (ofComponents rooted (cs ++ [c])).length ≤ (ofComponents rooted cs).length + 1 + c.length := by
  rw [ofComponents_concat, List.length_append]
  rcases lead_eq rooted cs with ⟨hlead, -⟩ | hlead
  · rw [hlead, List.length_nil]
    omega
  · rw [hlead, List.length_append, List.length_singleton]
    split
    · rw [List.length_nil]
      omega
    · omega

theorem mem_ofComponents {b : UInt8} (h : b ∈ ofComponents rooted (cs ++ [c])) :
    b ∈ ofComponents rooted cs ∨ b = slash ∨ b ∈ c := by
  rw [ofComponents_concat, List.mem_append] at h
  rcases h with h | h
  · rcases lead_eq rooted cs with ⟨hlead, -⟩ | hlead
    · rw [hlead] at h
      exact nomatch h
    · rw [hlead, List.mem_append, List.mem_singleton] at h
      rcases h with h | h
      · split at h
        · exact nomatch h
        · exact .inl h
      · exact .inr (.inl h)
  · exact .inr (.inr h)

end Concat
end Path
end Tarjuman
