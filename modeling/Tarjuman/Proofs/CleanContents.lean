/-
# Contents that are cleaned already

`Source.cleanWith` takes one byte-order mark away, then the carriage return of every line end, and
composes the rest; each step is taken once.  The composition is any function that has nothing left
to do in what it has composed, and that makes no mark at the start and no line end of two bytes
(`Source.Tame`).

A mark and a line end can be left behind all the same, by the two first steps.  Of two marks one
behind the other the second stays, and of two carriage returns before a line feed the first does,
which then has the line feed behind it (`Source.clean_twice`).  No other content is unclean after
one round (`Source.cleanWith_settles`).
-/

import Mathlib.Data.List.Infix
import Tarjuman.Proofs.UnixLines

namespace Tarjuman

/-- A carriage return with its line feed. -/
def Source.returnFeed : Text := [carriageReturn, Cursor.lineFeed]

/-! ## Neighbours in lists -/

section Neighbours

variable {α : Type} {a b x : α} {l r : List α}

theorem pair_infix_cons_iff : [a, b].IsInfix (x :: l) ↔
    x = a ∧ l.head? = some b ∨ [a, b].IsInfix l := by
  rw [List.infix_cons_iff, List.cons_prefix_cons, List.head?_eq_some_iff, List.cons_prefix_iff]
  simp [eq_comm]

/-- If a change leaves some values first where they were first, and works behind them alone, then
lists of such values stand first exactly where they did. -/
theorem prefix_change_iff {f : List α → List α} {P : α → Prop}
    (hhead : ∀ a, P a → ∀ l, (f l).head? = some a ↔ l.head? = some a)
    (hcons : ∀ a, P a → ∀ l, f (a :: l) = a :: f l) {p : List α} (hp : ∀ a ∈ p, P a)
    (l : List α) : p.IsPrefix (f l) ↔ p.IsPrefix l := by
  induction p generalizing l with
  | nil => exact iff_of_true List.nil_prefix List.nil_prefix
  | cons a p ih =>
    obtain ⟨ha, hp⟩ := List.forall_mem_cons.1 hp
    have hfirst {l : List α} (h : (a :: p).IsPrefix l) : l.head? = some a := by
      obtain ⟨r, rfl⟩ := h
      rfl
    by_cases hl : l.head? = some a
    · obtain ⟨r, rfl⟩ := List.head?_eq_some_iff.1 hl
      rw [hcons a ha, List.prefix_cons_inj, List.prefix_cons_inj, ih hp]
    · exact iff_of_false (fun h => hl ((hhead a ha l).1 (hfirst h))) fun h => hl (hfirst h)

end Neighbours

/-! ## The steps -/

theorem FileFlags.union_ne_none {a b : FileFlags} (h : b ≠ .none) : a.union b ≠ .none := by
  intro hunion
  have hbits : a.bits ||| b.bits = 0 := congrArg FileFlags.bits hunion
  exact h (congrArg FileFlags.mk (UInt8.or_eq_zero_iff.1 hbits).2)

namespace Source

theorem withoutMark_cases (c : Text) :
    (∃ r, c = orderMark ++ r ∧ withoutMark c = r) ∨ ¬ orderMark.IsPrefix c ∧ withoutMark c = c := by
  rw [withoutMark]
  cases h : orderMark.isPrefixOf? c with
  | some r => exact .inl ⟨r, (List.isPrefixOf?_eq_some_iff_append_eq.1 h).symm, rfl⟩
  | none =>
    refine .inr ⟨?_, rfl⟩
    rintro ⟨r, hr⟩
    rw [List.isPrefixOf?_eq_some_iff_append_eq.2 hr] at h
    cases h

theorem withoutMark_eq_self_iff {c : Text} : withoutMark c = c ↔ ¬ orderMark.IsPrefix c := by
  rcases withoutMark_cases c with ⟨r, rfl, hr⟩ | ⟨hmark, hsame⟩
  · refine iff_of_false (fun h => ?_) fun h => h (List.prefix_append _ r)
    have hlength := congrArg List.length (hr.symm.trans h)
    rw [List.length_append, show orderMark.length = 3 from rfl] at hlength
    omega
  · exact iff_of_true hsame hmark

/-- Behind one mark a second one is left. -/
theorem mark_withoutMark (c : Text) :
    orderMark.IsPrefix (withoutMark c) ↔ (orderMark ++ orderMark).IsPrefix c := by
  rcases withoutMark_cases c with ⟨r, rfl, hr⟩ | ⟨hmark, hsame⟩
  · rw [hr, List.prefix_append_right_inj]
  · rw [hsame]
    exact iff_of_false hmark fun h => hmark ((List.prefix_append _ _).trans h)

theorem returns_withoutMark (c : Text) :
    (carriageReturn :: returnFeed).IsInfix (withoutMark c) ↔
      (carriageReturn :: returnFeed).IsInfix c := by
  rcases withoutMark_cases c with ⟨r, rfl, hr⟩ | ⟨-, hsame⟩
  · rw [hr]
    simp [orderMark, List.infix_cons_iff, carriageReturn]
  · rw [hsame]

theorem unixLines_eq_self_iff {s : Text} : unixLines s = s ↔ ¬ returnFeed.IsInfix s := by
  induction s with
  | nil => exact iff_of_true rfl (by simp [returnFeed])
  | cons a r ih =>
    rw [returnFeed, pair_infix_cons_iff, not_or]
    by_cases hab : BreaksLine a r
    · refine iff_of_false (fun h => ?_) fun h => h.1 hab
      have hlength := length_unixLines_le r
      rw [← unixLines_of_break hab, h, List.length_cons] at hlength
      omega
    · rw [unixLines_of_not_break hab, List.cons.injEq, ih]
      exact ⟨fun h => ⟨hab, h.2⟩, fun h => ⟨rfl, h.2⟩⟩

theorem returnFeed_prefix_iff {a : UInt8} {r : Text} :
    returnFeed.IsPrefix (a :: r) ↔ BreaksLine a r := by
  rw [returnFeed, List.cons_prefix_cons, BreaksLine, List.head?_eq_some_iff, List.cons_prefix_iff]
  simp [eq_comm]

theorem head?_unixLines_eq_lineFeed_iff (s : Text) :
    (unixLines s).head? = some Cursor.lineFeed ↔
      s.head? = some Cursor.lineFeed ∨ returnFeed.IsPrefix s := by
  cases s with
  | nil => exact iff_of_false (by simp [unixLines]) (by simp [returnFeed])
  | cons a r =>
    rw [returnFeed_prefix_iff]
    by_cases hab : BreaksLine a r
    · obtain ⟨t, -, ht⟩ := exists_unixLines_of_break hab
      rw [ht]
      exact iff_of_true rfl (.inr hab)
    · rw [unixLines_of_not_break hab, or_iff_left hab]
      rfl

/-- **A line end is left exactly behind a carriage return that stood before one.** -/
theorem returnFeed_unixLines (s : Text) :
    returnFeed.IsInfix (unixLines s) ↔ (carriageReturn :: returnFeed).IsInfix s := by
  induction s with
  | nil => exact iff_of_false (by simp [unixLines, returnFeed]) (by simp [returnFeed])
  | cons a r ih =>
    rw [List.infix_cons_iff, List.cons_prefix_cons]
    by_cases hab : BreaksLine a r
    · have hnot : ¬ returnFeed.IsPrefix r := by
        obtain ⟨t, rfl, -⟩ := exists_unixLines_of_break hab
        rw [returnFeed_prefix_iff]
        exact not_breaksLine (by decide) t
      rw [unixLines_of_break hab, ih, or_iff_right fun h => hnot h.2]
    · have hhere : a = carriageReturn ∧ (unixLines r).head? = some Cursor.lineFeed ↔
          carriageReturn = a ∧ returnFeed.IsPrefix r := by
        rw [eq_comm, head?_unixLines_eq_lineFeed_iff]
        exact and_congr_right fun ha => or_iff_right fun hr => hab ⟨ha.symm, hr⟩
      rw [unixLines_of_not_break hab, returnFeed, pair_infix_cons_iff]
      exact or_congr hhere ih

/-- What holds neither carriage returns nor line feeds stands first exactly if it did before. -/
theorem prefix_unixLines {p : Text} (hp : ∀ b ∈ p, b ≠ carriageReturn ∧ b ≠ Cursor.lineFeed)
    (s : Text) : p.IsPrefix (unixLines s) ↔ p.IsPrefix s :=
  prefix_change_iff (fun _ hb => head?_unixLines_eq_some_iff hb.1 hb.2)
    (fun _ hb => unixLines_cons_of_ne hb.1) hp s

/-- A step ends without a flag exactly if there was none and it had nothing to do. -/
theorem cleanStep_eq_iff {step : Text → Text} {flag : FileFlags} (hflag : flag ≠ .none)
    {c : Text × FileFlags} {d : Text} :
    cleanStep step flag c = (d, .none) ↔ c = (d, .none) ∧ step d = d := by
  rw [cleanStep]
  constructor
  · intro h
    obtain ⟨hcontent, hflags⟩ := Prod.mk.inj h
    by_cases hsame : step c.1 = c.1
    · rw [if_pos hsame] at hflags
      rw [hsame] at hcontent
      subst hcontent
      exact ⟨Prod.ext rfl hflags, hsame⟩
    · rw [if_neg hsame] at hflags
      exact absurd hflags (FileFlags.union_ne_none hflag)
  · rintro ⟨rfl, hd⟩
    rw [hd, if_pos rfl]

/-! ## Rounds -/

/-- What a composition does to one text: it has nothing to do in what it has composed, and makes
neither a line end of two bytes nor a byte-order mark at the start. -/
structure Tame (k : Unicode.Composition) (s : Text) : Prop where
  settled : k.bytes (k.bytes s) = k.bytes s
  returns : returnFeed.IsInfix (k.bytes s) → returnFeed.IsInfix s
  marks : orderMark.IsPrefix (k.bytes s) → orderMark.IsPrefix s

section Composition

variable {k : Unicode.Composition} {s : Text}

/-- The test may know a text or not: composing twice is composing once. -/
theorem Tame.apply_apply (h : Tame k s) : k.apply (k.apply s) = k.apply s := by
  have hnormal {t : Text} (ht : k.bytes t = t) : k.apply t = t := by
    rw [Unicode.Composition.apply, ht, ite_self]
  by_cases hs : k.isNormal s
  · simp only [Unicode.Composition.apply, if_pos hs]
  · have happly : k.apply s = k.bytes s := if_neg hs
    rw [happly, hnormal h.settled]

/-- What composition does not make stands in the text it is given. -/
theorem of_apply {P : Text → Prop} (h : P (k.bytes s) → P s) (happly : P (k.apply s)) : P s := by
  by_cases hs : k.isNormal s
  · rwa [Unicode.Composition.apply, if_pos hs] at happly
  · rw [Unicode.Composition.apply, if_neg hs] at happly
    exact h happly

/-- **A content is clean already** exactly if no step has anything to do. -/
theorem cleanWith_eq_self_iff {c : Text} :
    cleanWith k c = (c, .none) ↔ withoutMark c = c ∧ unixLines c = c ∧ k.apply c = c := by
  rw [cleanWith, cleanStep_eq_iff (by decide), cleanStep_eq_iff (by decide),
    cleanStep_eq_iff (by decide)]
  simp only [true_and, and_assoc]

end Composition

/-- **One round of cleaning** under any composition that is tame where it is used: unless the
content starts with two byte-order marks, no mark is left at the start; unless a line end stands
behind a carriage return, no line end of two bytes is left; and if neither is so, a second round
changes nothing and sets no flag. -/
theorem cleanWith_settles (k : Unicode.Composition) (c : Text)
    (htame : Tame k (unixLines (withoutMark c))) :
    (¬ (orderMark ++ orderMark).IsPrefix c → ¬ orderMark.IsPrefix (cleanWith k c).1) ∧
    (¬ (carriageReturn :: returnFeed).IsInfix c → ¬ returnFeed.IsInfix (cleanWith k c).1) ∧
    (¬ (orderMark ++ orderMark).IsPrefix c → ¬ (carriageReturn :: returnFeed).IsInfix c →
      cleanWith k (cleanWith k c).1 = ((cleanWith k c).1, .none)) := by
  have hcontent : (cleanWith k c).1 = k.apply (unixLines (withoutMark c)) := rfl
  have hplain : ∀ b ∈ orderMark, b ≠ carriageReturn ∧ b ≠ Cursor.lineFeed := by
    simp [orderMark, carriageReturn, Cursor.lineFeed]
  have hmark (h : ¬ (orderMark ++ orderMark).IsPrefix c) :
      ¬ orderMark.IsPrefix (cleanWith k c).1 := by
    rw [← mark_withoutMark, ← prefix_unixLines hplain] at h
    exact fun hleft => h (of_apply htame.marks (hcontent ▸ hleft))
  have hreturn (h : ¬ (carriageReturn :: returnFeed).IsInfix c) :
      ¬ returnFeed.IsInfix (cleanWith k c).1 := by
    rw [← returns_withoutMark, ← returnFeed_unixLines] at h
    exact fun hleft => h (of_apply htame.returns (hcontent ▸ hleft))
  refine ⟨hmark, hreturn, fun hmarks hreturns => ?_⟩
  rw [cleanWith_eq_self_iff, withoutMark_eq_self_iff, unixLines_eq_self_iff, hcontent]
  exact ⟨hmark hmarks, hreturn hreturns, htame.apply_apply⟩

/-- A mark, an alef with its hamza behind it, and a line end. -/
def hamzaLine : Text := orderMark ++ "\u0627\u0654\r\n"

theorem cleanWith_settles_hamzaLine :
    clean hamzaLine =
        (Text.ofString "\u0623\n", (FileFlags.hadMark.union .hadReturns).union .wasComposed) ∧
      clean (clean hamzaLine).1 = ((clean hamzaLine).1, .none) := by
  have hcleaned : clean hamzaLine =
      (Text.ofString "\u0623\n", (FileFlags.hadMark.union .hadReturns).union .wasComposed) := by
    decide +kernel
  have hcomposed : Unicode.composed (unixLines (withoutMark hamzaLine)) =
      Text.ofString "\u0623\n" := by decide +kernel
  have htame : Tame .canonical (unixLines (withoutMark hamzaLine)) := by
    constructor <;> simp only [Unicode.Composition.canonical, hcomposed] <;> decide +kernel
  exact ⟨hcleaned, (cleanWith_settles _ _ htame).2.2 (by decide) (by decide)⟩

/-- A second mark stays, and so does a carriage return before a line end; both are gone after one
more round only. -/
theorem clean_twice :
    clean (orderMark ++ orderMark ++ "a") = (orderMark ++ "a", .hadMark) ∧
      clean (orderMark ++ "a") = (Text.ofString "a", .hadMark) ∧
      clean (carriageReturn :: returnFeed) = (returnFeed, .hadReturns) ∧
      clean returnFeed = (Text.ofString "\n", .hadReturns) := by
  decide +kernel

end Source
end Tarjuman
