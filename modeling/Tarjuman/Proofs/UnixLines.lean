/-
# Texts with line feeds alone

`Source.unixLines` takes every carriage return away that has a line feed after it.  It can be
done on both sides of a cut apart, unless the cut parts a carriage return from its line feed
(`Source.unixLines_of_parted`); so a cut of the text that parts none has its place in the
changed text (`Source.SameCut`).  A class of bytes that both carriage return and line feed are
in, or both are not in, ends at such a cut (`Source.takeWhile_cut`).
-/

import Tarjuman.Proofs.LexemeText
import Tarjuman.Source.Clean

namespace Tarjuman

/-! ## Cuts -/

namespace Source

/-- The carriage return. -/
def carriageReturn : UInt8 := 0x0D

/-- The byte is a carriage return with its line feed in the text behind it. -/
def BreaksLine (a : UInt8) (r : Text) : Prop :=
  a = carriageReturn ∧ r.head? = some Cursor.lineFeed

instance (a : UInt8) (r : Text) : Decidable (BreaksLine a r) :=
  inferInstanceAs (Decidable (_ ∧ _))

theorem not_breaksLine {a : UInt8} (h : a ≠ carriageReturn) (r : Text) : ¬ BreaksLine a r :=
  fun hab => h hab.1

theorem unixLines_cons (a : UInt8) (r : Text) :
    unixLines (a :: r) = if BreaksLine a r then unixLines r else a :: unixLines r := by
  cases r with
  | nil => rw [if_neg (by simp [BreaksLine])]; rfl
  | cons b r => simp only [unixLines, BreaksLine, List.head?_cons, Option.some.injEq]; rfl

theorem unixLines_of_break {a : UInt8} {r : Text} (h : BreaksLine a r) :
    unixLines (a :: r) = unixLines r := by rw [unixLines_cons, if_pos h]

theorem unixLines_of_not_break {a : UInt8} {r : Text} (h : ¬ BreaksLine a r) :
    unixLines (a :: r) = a :: unixLines r := by rw [unixLines_cons, if_neg h]

theorem unixLines_cons_of_ne {a : UInt8} (h : a ≠ carriageReturn) (r : Text) :
    unixLines (a :: r) = a :: unixLines r := unixLines_of_not_break (not_breaksLine h r)

/-- The change is the replacement of every carriage return with a line feed after it. -/
theorem unixLines_eq_replace (s : Text) : unixLines s = s.replace "\r\n" "\n" := by
  have hold : Text.ofString "\r\n" = [0x0D, 0x0A] := rfl
  have hnew : Text.ofString "\n" = [0x0A] := rfl
  rw [Text.replace, hold, hnew]
  fun_induction unixLines s with
  | case1 => rfl
  | case2 b => simp [Text.replaceFrom]
  | case3 a b r hbreak ih =>
    obtain ⟨rfl, rfl⟩ := hbreak
    rw [ih]
    rfl
  | case4 a b r hbreak ih =>
    have hstarts : ¬ [0x0D, 0x0A].isPrefixOf (a :: b :: r) = true := by
      rw [List.isPrefixOf_iff_prefix, List.cons_prefix_cons, List.cons_prefix_cons]
      rintro ⟨ha, hb, -⟩
      exact hbreak ⟨ha.symm, hb.symm⟩
    rw [Text.replaceFrom, if_neg hstarts, ih]

/-- A text without carriage returns stays as it is. -/
theorem unixLines_eq_self {s : Text} (h : carriageReturn ∉ s) : unixLines s = s := by
  induction s with
  | nil => rfl
  | cons a r ih =>
    obtain ⟨ha, hr⟩ := not_or.1 (mt List.mem_cons.2 h)
    rw [unixLines_cons_of_ne (Ne.symm ha), ih hr]

/-- The first byte changes only where a line feed takes the place of its carriage return. -/
theorem head?_unixLines (s : Text) :
    (unixLines s).head? = s.head? ∨
      s.head? = some carriageReturn ∧ (unixLines s).head? = some Cursor.lineFeed := by
  induction s with
  | nil => exact .inl rfl
  | cons a r ih =>
    by_cases hab : BreaksLine a r
    · rw [unixLines_of_break hab, hab.1]
      refine .inr ⟨rfl, ?_⟩
      rcases ih with hsame | ⟨hreturn, -⟩
      · rw [hsame, hab.2]
      · exact absurd (hab.2.symm.trans hreturn) (by decide)
    · rw [unixLines_of_not_break hab]
      exact .inl rfl

theorem head?_unixLines_eq_some_iff {b : UInt8} (hreturn : b ≠ carriageReturn)
    (hfeed : b ≠ Cursor.lineFeed) (s : Text) :
    (unixLines s).head? = some b ↔ s.head? = some b := by
  rcases head?_unixLines s with hsame | ⟨hs, hu⟩
  · rw [hsame]
  · rw [hs, hu]
    exact iff_of_false (fun h => hfeed (Option.some.inj h).symm)
      fun h => hreturn (Option.some.inj h).symm

/-- The line feed of a carriage return is the first byte in its place. -/
theorem exists_unixLines_of_break {a : UInt8} {r : Text} (h : BreaksLine a r) :
    ∃ t, r = Cursor.lineFeed :: t ∧ unixLines (a :: r) = Cursor.lineFeed :: unixLines t := by
  obtain ⟨t, rfl⟩ := List.head?_eq_some_iff.1 h.2
  exact ⟨t, rfl, by rw [unixLines_of_break h, unixLines_cons_of_ne (by decide)]⟩

theorem count_lineFeed_unixLines (s : Text) :
    (unixLines s).count Cursor.lineFeed = s.count Cursor.lineFeed := by
  induction s with
  | nil => rfl
  | cons a r ih =>
    by_cases hab : BreaksLine a r
    · rw [unixLines_of_break hab, hab.1, List.count_cons_of_ne (by decide), ih]
    · rw [unixLines_of_not_break hab, List.count_cons, List.count_cons, ih]

theorem getLast?_unixLines (s : Text) : (unixLines s).getLast? = s.getLast? := by
  induction s with
  | nil => rfl
  | cons a r ih =>
    by_cases hab : BreaksLine a r
    · obtain ⟨t, rfl, -⟩ := exists_unixLines_of_break hab
      rw [unixLines_of_break hab, ih, List.getLast?_cons_cons]
    · rw [unixLines_of_not_break hab, List.getLast?_cons, List.getLast?_cons, ih]

theorem unixLines_eq_nil_iff {s : Text} : unixLines s = [] ↔ s = [] := by
  rw [← List.getLast?_eq_none_iff, getLast?_unixLines, List.getLast?_eq_none_iff]

theorem length_unixLines_le (s : Text) : (unixLines s).length ≤ s.length := by
  induction s with
  | nil => exact Nat.le_refl _
  | cons a r ih =>
    rw [unixLines_cons, List.length_cons]
    split
    · omega
    · rw [List.length_cons]
      omega

theorem mem_of_mem_unixLines {b : UInt8} {s : Text} (h : b ∈ unixLines s) : b ∈ s := by
  induction s with
  | nil => exact h
  | cons a r ih =>
    rw [unixLines_cons] at h
    split at h
    · exact List.mem_cons_of_mem a (ih h)
    · rcases List.mem_cons.1 h with rfl | h
      · exact List.mem_cons_self
      · exact List.mem_cons_of_mem a (ih h)

/-- No carriage return stands before the cut with its line feed behind it. -/
def Parted (s : Text) (n : Nat) : Prop :=
  ∀ i, n = i + 1 → s[i]? = some carriageReturn → s[n]? ≠ some Cursor.lineFeed

theorem parted_cons {a : UInt8} {r : Text} {n : Nat} :
    Parted (a :: r) (n + 1) ↔ (n = 0 → ¬ BreaksLine a r) ∧ Parted r n := by
  cases n with
  | zero =>
    simp only [Parted, BreaksLine, List.head?_eq_getElem?]
    grind
  | succ n =>
    simp only [Parted, List.getElem?_cons_succ]
    grind

/-- **A text is changed on both sides of a cut alone**, if it parts no line end. -/
theorem unixLines_of_parted {s : Text} {n : Nat} (h : Parted s n) :
    unixLines s = unixLines (s.take n) ++ unixLines (s.drop n) := by
  induction s generalizing n with
  | nil => rw [List.take_nil, List.drop_nil]; rfl
  | cons a r ih =>
    cases n with
    | zero => rfl
    | succ n =>
      obtain ⟨hseam, hr⟩ := parted_cons.1 h
      rw [List.take_succ_cons, List.drop_succ_cons]
      by_cases hab : BreaksLine a r
      · have hn : n ≠ 0 := fun hn => hseam hn hab
        have hfront : BreaksLine a (r.take n) := ⟨hab.1, by rw [List.head?_take, if_neg hn, hab.2]⟩
        rw [unixLines_of_break hab, unixLines_of_break hfront, ih hr]
      · have hfront : ¬ BreaksLine a (r.take n) := by
          rintro ⟨ha, hhead⟩
          rw [List.head?_take] at hhead
          split at hhead
          · cases hhead
          · exact hab ⟨ha, hhead⟩
        rw [unixLines_of_not_break hab, unixLines_of_not_break hfront, ih hr, List.cons_append]

/-- The cut behind `n` bytes of a text parts no line end, and `m` bytes of the changed text
stand before it. -/
structure SameCut (s : Text) (n m : Nat) : Prop where
  parted : Parted s n
  size_eq : m = (unixLines (s.take n)).length

namespace SameCut

variable {s r : Text} {a : UInt8} {n m k l : Nat}

theorem take (h : SameCut s n m) : (unixLines s).take m = unixLines (s.take n) := by
  rw [unixLines_of_parted h.parted, h.size_eq, List.take_left]

theorem drop (h : SameCut s n m) : (unixLines s).drop m = unixLines (s.drop n) := by
  rw [unixLines_of_parted h.parted, h.size_eq, List.drop_left]

theorem le (h : SameCut s n m) : m ≤ (unixLines s).length := by
  rw [unixLines_of_parted h.parted, h.size_eq, List.length_append]
  exact Nat.le_add_right _ _

theorem zero (s : Text) : SameCut s 0 0 := ⟨fun i hi => absurd hi (by omega), rfl⟩

theorem eq_zero_iff (h : SameCut s n m) (hn : n ≤ s.length) : m = 0 ↔ n = 0 := by
  refine ⟨fun hm => ?_, fun hn => by rw [h.size_eq, hn]; rfl⟩
  have hnil : s.take n = [] := by
    rw [← unixLines_eq_nil_iff, ← List.length_eq_zero_iff, ← h.size_eq, hm]
  rw [← List.length_take_of_le hn, hnil, List.length_nil]

/-- One more byte before the cut. -/
theorem cons (hab : ¬ BreaksLine a r) (h : SameCut r n m) :
    SameCut (a :: r) (1 + n) (1 + m) := by
  rw [Nat.add_comm 1 n, Nat.add_comm 1 m]
  refine ⟨parted_cons.2 ⟨fun _ => hab, h.parted⟩, ?_⟩
  rw [List.take_succ_cons, unixLines_of_not_break, List.length_cons, ← h.size_eq]
  rintro ⟨ha, hhead⟩
  rw [List.head?_take] at hhead
  split at hhead
  · cases hhead
  · exact hab ⟨ha, hhead⟩

/-- One more carriage return before the cut, with its line feed. -/
theorem cons_return (hab : BreaksLine a r) (hn : 0 < n) (h : SameCut r n m) :
    SameCut (a :: r) (1 + n) m := by
  rw [Nat.add_comm 1 n]
  refine ⟨parted_cons.2 ⟨fun hzero => by omega, h.parted⟩, ?_⟩
  rw [List.take_succ_cons, unixLines_of_break, ← h.size_eq]
  exact ⟨hab.1, by rw [List.head?_take, if_neg (by omega), hab.2]⟩

/-- The cut at the end. -/
theorem whole (s : Text) : SameCut s s.length (unixLines s).length := by
  refine ⟨fun i _ _ hfeed => ?_, by rw [List.take_length]⟩
  rw [List.getElem?_eq_none (Nat.le_refl _)] at hfeed
  cases hfeed

/-- A cut behind a cut. -/
theorem add (h : SameCut s n m) (h' : SameCut (s.drop n) k l) : SameCut s (n + k) (m + l) := by
  have hparted : Parted s (n + k) := by
    cases k with
    | zero => exact h.parted
    | succ k =>
      rintro i hi hreturn
      obtain rfl : i = n + k := by omega
      have hseam := h'.parted k rfl
      rw [List.getElem?_drop, List.getElem?_drop] at hseam
      exact hseam hreturn
  refine ⟨hparted, ?_⟩
  have hwhole := congrArg List.length (unixLines_of_parted hparted)
  have hfront := congrArg List.length (unixLines_of_parted h.parted)
  have hback := congrArg List.length (unixLines_of_parted h'.parted)
  rw [List.length_append] at hwhole hfront hback
  rw [List.drop_drop, ← h'.size_eq] at hback
  have := h.size_eq
  omega

/-- Texts without carriage returns are cut at the same number of bytes. -/
theorem of_plain {p : Text} (hp : carriageReturn ∉ p) (r : Text) :
    SameCut (p ++ r) p.length p.length := by
  induction p with
  | nil => exact .zero _
  | cons a p ih =>
    obtain ⟨ha, hp⟩ := not_or.1 (mt List.mem_cons.2 hp)
    rw [List.length_cons, Nat.add_comm]
    exact (ih hp).cons (not_breaksLine (Ne.symm ha) _)

end SameCut

/-! ## Classes of bytes -/

section

variable {p : UInt8 → Bool} (hp : p carriageReturn = p Cursor.lineFeed)

include hp

/-- The bytes of a class that carriage return and line feed are both in or both not. -/
theorem takeWhile_cut (s : Text) :
    SameCut s (s.takeWhile p).length ((unixLines s).takeWhile p).length := by
  induction s with
  | nil => exact .zero _
  | cons a r ih =>
    by_cases hab : BreaksLine a r
    · obtain ⟨t, rfl, -⟩ := exists_unixLines_of_break hab
      obtain rfl := hab.1
      rw [unixLines_of_break hab]
      cases hfeed : p Cursor.lineFeed with
      | false =>
        rw [unixLines_cons_of_ne (by decide), List.takeWhile_cons_of_neg (by simp [hp, hfeed]),
          List.takeWhile_cons_of_neg (by simp [hfeed])]
        exact .zero _
      | true =>
        rw [List.takeWhile_cons_of_pos (by rw [hp, hfeed]), List.length_cons, Nat.add_comm]
        refine ih.cons_return hab ?_
        rw [List.takeWhile_cons_of_pos hfeed]
        exact Nat.succ_pos _
    · rw [unixLines_of_not_break hab]
      cases ha : p a with
      | false =>
        rw [List.takeWhile_cons_of_neg (by simp [ha]), List.takeWhile_cons_of_neg (by simp [ha])]
        exact .zero _
      | true =>
        rw [List.takeWhile_cons_of_pos ha, List.takeWhile_cons_of_pos ha, List.length_cons,
          List.length_cons, Nat.add_comm, Nat.add_comm _ 1]
        exact ih.cons hab

theorem dropWhile_unixLines (s : Text) :
    (unixLines s).dropWhile p = unixLines (s.dropWhile p) := by
  rw [← Lexeme.drop_length_takeWhile, ← Lexeme.drop_length_takeWhile, (takeWhile_cut hp s).drop]

/-- The same at the end of a text. -/
theorem dropWhile_reverse_unixLines (s : Text) :
    (unixLines s).reverse.dropWhile p = (unixLines (s.reverse.dropWhile p).reverse).reverse := by
  have hsplit : s = (s.reverse.dropWhile p).reverse ++ (s.reverse.takeWhile p).reverse := by
    rw [← List.reverse_append, List.takeWhile_append_dropWhile, List.reverse_reverse]
  have hlast : ∀ b ∈ (s.reverse.dropWhile p).reverse.getLast?, p b = false := by
    intro b hb
    rw [List.getLast?_reverse] at hb
    have h := List.head?_dropWhile_not p s.reverse
    rw [Option.mem_def.1 hb] at h
    exact h
  have hblank : ∀ b ∈ (s.reverse.takeWhile p).reverse, p b = true :=
    fun b hb => List.mem_takeWhile_imp (List.mem_reverse.1 hb)
  generalize (s.reverse.dropWhile p).reverse = front at hsplit hlast ⊢
  generalize (s.reverse.takeWhile p).reverse = back at hsplit hblank
  subst hsplit
  have hparted : Parted (front ++ back) front.length := by
    intro i hi hreturn hfeed
    rw [List.getElem?_append_left (by omega)] at hreturn
    rw [List.getElem?_append_right (Nat.le_refl _)] at hfeed
    have hend : front.getLast? = some carriageReturn := by
      rw [List.getLast?_eq_getElem?, hi, Nat.add_sub_cancel, hreturn]
    have hfalse := hlast _ hend
    rw [hp, hblank _ (List.mem_of_getElem? hfeed)] at hfalse
    cases hfalse
  have hwhole := unixLines_of_parted hparted
  rw [List.take_left, List.drop_left] at hwhole
  rw [hwhole, List.reverse_append, List.dropWhile_append_of_pos
    fun b hb => hblank b (mem_of_mem_unixLines (List.mem_reverse.1 hb))]
  cases hfront : (unixLines front).reverse with
  | nil => rfl
  | cons b t =>
    have hb : (unixLines front).getLast? = some b := by
      rw [List.getLast?_eq_head?_reverse, hfront, List.head?_cons]
    rw [getLast?_unixLines] at hb
    exact List.dropWhile_cons_of_neg (by simp [hlast b hb])

end

end Source

end Tarjuman
