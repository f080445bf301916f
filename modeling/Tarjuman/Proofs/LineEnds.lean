/-
# Line ends

A content whose lines end with a carriage return and a line feed is read as the content with
line feeds alone.  Both carriage return and line feed are blanks, both end a keyword and an
identifier, and neither is a quote, a backslash or a brace; so wherever the one content is cut
between two lexemes, the other is cut at the place that belongs to it (`Source.SameCut`).  Only
a backslash in a string makes a difference on the way: it passes over the carriage return in
the one content and over the line feed in the other, and one byte later both are level again.

Cuts at trivia and at each lexeme (`Lexeme.read_alike`) are carried along the content by
cursors that read side by side (`Cursor.Alike.fetch`, `Cursor.Alike.fetchAll`).
-/

import Mathlib.Data.List.Forall2
import Tarjuman.Proofs.TokenLanguages
import Tarjuman.Proofs.UnixLines

namespace Tarjuman

/-! ## Spellings -/

namespace Text

/-- The text has neither carriage returns nor line feeds. -/
structure OneLine (p : Text) : Prop where
  plain : Source.carriageReturn ∉ p
  unbroken : Cursor.lineFeed ∉ p

instance (p : Text) : Decidable p.OneLine :=
  decidable_of_iff (Source.carriageReturn ∉ p ∧ Cursor.lineFeed ∉ p)
    ⟨fun h => ⟨h.1, h.2⟩, fun h => ⟨h.plain, h.unbroken⟩⟩

theorem after?_unixLines {p : Text} (hp : p.OneLine) (s : Text) :
    (Source.unixLines s).after? p = (s.after? p).map Source.unixLines := by
  induction p generalizing s with
  | nil => rfl
  | cons b p ih =>
    obtain ⟨hreturn, hplain⟩ := not_or.1 (mt List.mem_cons.2 hp.plain)
    obtain ⟨hfeed, hunbroken⟩ := not_or.1 (mt List.mem_cons.2 hp.unbroken)
    have hcons (a : UInt8) (t : Text) : Text.after? (a :: t) (b :: p) =
        if b == a then t.after? p else none := by
      rw [after?, List.isPrefixOf?]
      rfl
    cases s with
    | nil => rfl
    | cons a r =>
      by_cases hab : Source.BreaksLine a r
      · obtain ⟨t, rfl, ht⟩ := Source.exists_unixLines_of_break hab
        rw [ht, hcons, hcons, if_neg (by simp [Ne.symm hfeed]),
          if_neg (by simp [hab.1, Ne.symm hreturn])]
        rfl
      · rw [Source.unixLines_of_not_break hab, hcons, hcons]
        split
        · exact ih ⟨hplain, hunbroken⟩ r
        · rfl

theorem isPrefixOf_unixLines {p : Text} (hp : p.OneLine) (s : Text) :
    p.isPrefixOf (Source.unixLines s) = p.isPrefixOf s := by
  have h := congrArg Option.isSome (after?_unixLines hp s)
  rwa [after?, after?, Option.isSome_map, List.isSome_isPrefixOf?_eq_isPrefixOf,
    List.isSome_isPrefixOf?_eq_isPrefixOf] at h

end Text

namespace Keyword

open Source

theorem oneLine_spelling : ∀ k ∈ table, k.spelling.OneLine := by decide

theorem delimiterSize?_unixLines (r : Text) : delimiterSize? (unixLines r) = delimiterSize? r := by
  cases r with
  | nil => rfl
  | cons a r =>
    by_cases hab : BreaksLine a r
    · obtain ⟨t, rfl, ht⟩ := exists_unixLines_of_break hab
      rw [ht, hab.1]
      rfl
    · rw [unixLines_of_not_break hab]
      rfl

theorem size?_unixLines {k : Keyword} (hk : k ∈ table) (s : Text) :
    k.size? (unixLines s) = k.size? s := by
  have hafter := Text.after?_unixLines (oneLine_spelling k hk) s
  rw [Text.after?, Text.after?] at hafter
  rw [size?, size?, hafter]
  cases k.spelling.isPrefixOf? s with
  | none => rfl
  | some r => simp only [Option.map_some, delimiterSize?_unixLines]

theorem find?_unixLines (s : Text) : find? (unixLines s) = find? s := by
  rw [find?, find?, ← List.head?_filterMap, ← List.head?_filterMap]
  refine congrArg List.head? (List.filterMap_congr fun k hk => ?_)
  rw [size?_unixLines hk]

theorem size?_cut {k : Keyword} (hk : k ∈ table) {s : Text} {n : Nat} (h : k.size? s = some n) :
    SameCut s n n := by
  have hplain := (oneLine_spelling k hk).plain
  rw [size?] at h
  split at h
  · cases h
  · rename_i rest hrest
    obtain rfl := Text.isPrefixOf?_eq_some_iff.1 hrest
    split at h
    · obtain ⟨d, hd, rfl⟩ := Option.map_eq_some_iff.1 h
      refine (SameCut.of_plain hplain rest).add ?_
      rw [List.drop_left]
      cases rest with
      | nil =>
        cases hd
        exact .zero _
      | cons b rest =>
        rw [delimiterSize?] at hd
        split at hd
        · cases hd
          exact .zero _
        · split at hd
          · rename_i hspace
            cases hd
            exact (SameCut.zero rest).cons (not_breaksLine (by rw [beq_iff_eq.1 hspace]; decide) _)
          · cases hd
    · cases h
      exact .of_plain hplain rest

theorem find?_cut {s : Text} {kind : Kind} {n : Nat} (h : find? s = some (kind, n)) :
    SameCut s n n := by
  obtain ⟨k, hk, hsome⟩ := List.exists_of_findSome?_eq_some h
  obtain ⟨m, hm, heq⟩ := Option.map_eq_some_iff.1 hsome
  obtain ⟨rfl, rfl⟩ := Prod.mk.inj heq
  exact size?_cut hk hm

end Keyword

/-! ## Sizes -/

/-- Sizes that were both found, one for each content, or both not. -/
theorem rel_map {R S : Nat → Nat → Prop} {f g : Nat → Nat} {a b : Option Nat}
    (h : Option.Rel R a b) (hfg : ∀ n ∈ a, ∀ m, R n m → S (f n) (g m)) :
    Option.Rel S (a.map f) (b.map g) := by
  cases h with
  | some h => exact .some (hfg _ rfl _ h)
  | none => exact .none

theorem rel_map_left {R S : Nat → Nat → Prop} {f : Nat → Nat} {a b : Option Nat}
    (h : Option.Rel R a b) (hf : ∀ n ∈ a, ∀ m, R n m → S (f n) m) :
    Option.Rel S (a.map f) b := by
  cases h with
  | some h => exact .some (hf _ rfl _ h)
  | none => exact .none

namespace Lexeme

open Source

/-- **Trivia ends at the same place.** -/
theorem triviaSize_cut (comment : Bool) (s : Text) :
    SameCut s (triviaSize comment s) (triviaSize comment (unixLines s)) := by
  have hblank {a : UInt8} {r : Text} (h : BreaksLine a r) : 0 < triviaSize false r := by
    obtain ⟨t, rfl, -⟩ := exists_unixLines_of_break h
    rw [triviaSize, if_pos (by decide)]
    omega
  have hcomment {a : UInt8} {r : Text} (h : BreaksLine a r) : 0 < triviaSize true r := by
    obtain ⟨t, rfl, -⟩ := exists_unixLines_of_break h
    rw [triviaSize]
    omega
  fun_induction triviaSize comment s with
  | case1 comment => cases comment <;> exact .zero _
  | case2 b r ih =>
    by_cases hb : BreaksLine b r
    · rw [hb.1] at ih ⊢
      rw [unixLines_of_break ⟨rfl, hb.2⟩]
      exact ih.cons_return ⟨rfl, hb.2⟩ (hcomment hb)
    · rw [unixLines_of_not_break hb, triviaSize]
      exact ih.cons hb
  | case3 b r hspace ih =>
    by_cases hb : BreaksLine b r
    · rw [unixLines_of_break hb]
      exact ih.cons_return hb (hblank hb)
    · rw [unixLines_of_not_break hb, triviaSize, if_pos hspace]
      exact ih.cons hb
  | case4 b r hspace hslash ih =>
    have hb : ¬ BreaksLine b r := fun hb => hspace (by rw [hb.1]; rfl)
    have hhead : (unixLines r).head? = some (Text.byte '/') ↔ r.head? = some (Text.byte '/') :=
      head?_unixLines_eq_some_iff (by decide) (by decide) r
    rw [unixLines_of_not_break hb, triviaSize, if_neg hspace, if_pos (by simpa [hhead] using hslash)]
    exact ih.cons hb
  | case5 b r hspace hslash =>
    have hb : ¬ BreaksLine b r := fun hb => hspace (by rw [hb.1]; rfl)
    have hhead : (unixLines r).head? = some (Text.byte '/') ↔ r.head? = some (Text.byte '/') :=
      head?_unixLines_eq_some_iff (by decide) (by decide) r
    rw [unixLines_of_not_break hb, triviaSize, if_neg hspace, if_neg (by simpa [hhead] using hslash)]
    exact .zero _

theorem digitsSize_eq_zero {a : UInt8} {r : Text} (ha : isWesternDigit a = false)
    (hr : ∀ b ∈ r.head?, isArabicDigit a b = false) : digitsSize (a :: r) = 0 := by
  cases r with
  | nil => simp [digitsSize, ha]
  | cons b r => simp [digitsSize, ha, hr b rfl]

theorem digitsSize_lineFeed (r : Text) : digitsSize (Cursor.lineFeed :: r) = 0 :=
  digitsSize_eq_zero rfl fun _ _ => rfl

/-- **Digits end at the same place.** -/
theorem digitsSize_cut (s : Text) : SameCut s (digitsSize s) (digitsSize (unixLines s)) := by
  fun_induction digitsSize s with
  | case1 => exact .zero _
  | case2 a r ha ih =>
    have hb : ¬ BreaksLine a r := not_breaksLine (by rintro rfl; exact absurd ha (by decide)) r
    have hsize (t : Text) : digitsSize (a :: t) = 1 + digitsSize t := by
      rw [digitsSize.eq_def]
      exact if_pos ha
    rw [unixLines_of_not_break hb, hsize]
    exact ih.cons hb
  | case3 a ha =>
    have hzero : digitsSize [a] = 0 := digitsSize_eq_zero (by simpa using ha) (by simp)
    show SameCut [a] 0 (digitsSize [a])
    rw [hzero]
    exact .zero _
  | case4 a ha b r hab ih =>
    have hfirst : ¬ BreaksLine a (b :: r) :=
      not_breaksLine (by rintro rfl; exact absurd hab (by simp [isArabicDigit, carriageReturn])) _
    have hsecond : ¬ BreaksLine b r :=
      not_breaksLine (by rintro rfl; exact absurd hab (by simp [isArabicDigit, carriageReturn])) _
    rw [unixLines_of_not_break hfirst, unixLines_of_not_break hsecond, digitsSize, if_neg ha,
      if_pos hab]
    have h := (ih.cons hsecond).cons hfirst
    rwa [← Nat.add_assoc, ← Nat.add_assoc] at h
  | case5 a ha b r hab =>
    have hzero : digitsSize (unixLines (a :: b :: r)) = 0 := by
      by_cases hbreak : BreaksLine a (b :: r)
      · obtain ⟨t, -, ht⟩ := exists_unixLines_of_break hbreak
        rw [ht, digitsSize_lineFeed]
      · rw [unixLines_of_not_break hbreak]
        refine digitsSize_eq_zero (by simpa using ha) fun c hc => ?_
        rcases head?_unixLines (b :: r) with hsame | ⟨-, hfeed⟩
        · rw [hsame] at hc
          obtain rfl := Option.some.inj hc
          simpa using hab
        · rw [hfeed] at hc
          obtain rfl := Option.some.inj hc
          simp [isArabicDigit, Cursor.lineFeed]
    rw [hzero]
    exact .zero _

/-- **Numbers end at the same place.** -/
theorem numberSize_cut (s : Text) : SameCut s (numberSize s) (numberSize (unixLines s)) := by
  have hwhole := digitsSize_cut s
  rw [numberSize, numberSize, hwhole.drop]
  cases hrest : s.drop (digitsSize s) with
  | nil => exact hwhole
  | cons b r =>
    by_cases hb : BreaksLine b r
    · obtain ⟨t, -, ht⟩ := exists_unixLines_of_break hb
      rw [ht]
      dsimp only
      rw [if_neg (by rw [hb.1]; simp [carriageReturn, Text.byte]),
        if_neg (by simp [Cursor.lineFeed, Text.byte])]
      exact hwhole
    · have hdigits := digitsSize_cut r
      have hzero := hdigits.eq_zero_iff (digitsSize_le r)
      rw [unixLines_of_not_break hb]
      dsimp only
      by_cases hcomma : b = Text.byte ',' ∧ digitsSize r ≠ 0
      · rw [if_pos (by simp [hcomma]), if_pos (by simp [hcomma, hzero]), Nat.add_assoc,
          Nat.add_assoc]
        refine hwhole.add ?_
        rw [hrest]
        exact hdigits.cons hb
      · rw [if_neg (by simpa using hcomma), if_neg (by simpa [hzero] using hcomma)]
        exact hwhole

theorem stringSize?_pos {r : Text} {n : Nat} (h : stringSize? r = some n) : 0 < n := by
  fun_induction stringSize? r generalizing n with
  | case1 => cases h
  | case2 b r hquote => cases h; exact Nat.one_pos
  | case3 b hquote hescape => cases h
  | case4 b hquote hescape a r ih =>
    obtain ⟨m, -, rfl⟩ := Option.map_eq_some_iff.1 h
    omega
  | case5 b r hquote hescape ih =>
    obtain ⟨m, -, rfl⟩ := Option.map_eq_some_iff.1 h
    omega

theorem stringSize?_cons {b : UInt8} (hquote : b ≠ quote) (hescape : b ≠ backslash) (t : Text) :
    stringSize? (b :: t) = (stringSize? t).map (1 + ·) := by
  have hquote : ¬ (b == Text.byte '"') = true := mt beq_iff_eq.1 hquote
  have hescape : ¬ (b == Text.byte '\\') = true := mt beq_iff_eq.1 hescape
  rw [stringSize?.eq_def]
  dsimp only
  rw [if_neg hquote, if_neg hescape]

theorem stringSize?_escape (a : UInt8) (t : Text) :
    stringSize? (backslash :: a :: t) = (stringSize? t).map (2 + ·) := by
  rw [stringSize?]
  rfl

/-- **Strings end at the same place.** -/
theorem stringSize?_cut (r : Text) :
    Option.Rel (SameCut r) (stringSize? r) (stringSize? (unixLines r)) := by
  fun_induction stringSize? r with
  | case1 => exact .none
  | case2 b r hquote =>
    obtain rfl := beq_iff_eq.1 hquote
    rw [unixLines_cons_of_ne (by decide), stringSize?.eq_def]
    exact .some ((SameCut.zero r).cons (not_breaksLine (by decide) r))
  | case3 b hquote hescape =>
    obtain rfl := beq_iff_eq.1 hescape
    exact .none
  | case4 b hquote hescape a r ih =>
    obtain rfl : b = backslash := beq_iff_eq.1 hescape
    have hb : ¬ BreaksLine backslash (a :: r) := not_breaksLine (by decide) _
    rw [unixLines_of_not_break hb]
    by_cases ha : BreaksLine a r
    · -- the backslash passes over the return here and over the feed there
      obtain ⟨t, rfl, ht⟩ := exists_unixLines_of_break ha
      rw [unixLines_cons_of_ne (by decide),
        stringSize?_cons (by decide) (by decide) (unixLines t)] at ih
      rw [ht, stringSize?_escape]
      have htwo : (stringSize? (unixLines t)).map (2 + ·) =
          ((stringSize? (unixLines t)).map (1 + ·)).map (1 + ·) := by
        rw [Option.map_map]
        congr 1
        funext m
        exact Nat.add_assoc 1 1 m
      rw [htwo]
      refine rel_map ih fun n hn m h => ?_
      have hcut := (h.cons_return ha (stringSize?_pos hn)).cons hb
      rwa [← Nat.add_assoc] at hcut
    · rw [unixLines_of_not_break ha, stringSize?_escape]
      refine rel_map ih fun n hn m h => ?_
      have hcut := (h.cons ha).cons hb
      rwa [← Nat.add_assoc, ← Nat.add_assoc] at hcut
  | case5 b r hquote hescape ih =>
    by_cases hb : BreaksLine b r
    · rw [unixLines_of_break hb]
      exact rel_map_left ih fun n hn m h => h.cons_return hb (stringSize?_pos hn)
    · rw [unixLines_of_not_break hb,
        stringSize?_cons (mt beq_iff_eq.2 hquote) (mt beq_iff_eq.2 hescape)]
      exact rel_map ih fun n hn m h => h.cons hb

/-- How many braces are left to close behind a byte, if it is not the last to close. -/
theorem rawSize?_cons {b : UInt8} (hopen : b ≠ openBrace) (hclose : b ≠ closeBrace) (depth : Nat)
    (t : Text) : rawSize? depth (b :: t) = (rawSize? depth t).map (1 + ·) := by
  have hopen : (b == Text.byte '{') = false := beq_eq_false_iff_ne.2 hopen
  have hclose : (b == Text.byte '}') = false := beq_eq_false_iff_ne.2 hclose
  cases depth with
  | zero => simp [rawSize?, hopen, hclose]
  | succ d => simp [rawSize?, hopen, hclose]

/-- **Raw literals end at the same place.** -/
theorem rawSize?_cut (depth : Nat) (r : Text) :
    Option.Rel (SameCut r) (rawSize? depth r) (rawSize? depth (unixLines r)) := by
  induction r generalizing depth with
  | nil => exact .none
  | cons b r ih =>
    by_cases hb : BreaksLine b r
    · obtain ⟨t, rfl, -⟩ := exists_unixLines_of_break hb
      rw [unixLines_of_break hb, hb.1, rawSize?_cons (by decide) (by decide)]
      refine rel_map_left (ih depth) fun n hn m h => h.cons_return ⟨rfl, rfl⟩ ?_
      rw [Option.mem_def, rawSize?_cons (by decide) (by decide)] at hn
      obtain ⟨k, -, rfl⟩ := Option.map_eq_some_iff.1 hn
      omega
    · rw [unixLines_of_not_break hb]
      cases depth with
      | zero =>
        rw [rawSize?, rawSize?]
        split
        · exact .some (.zero _)
        · exact rel_map (ih _) fun n _ m h => h.cons hb
      | succ d =>
        rw [rawSize?, rawSize?]
        exact rel_map (ih _) fun n _ m h => h.cons hb

/-! ## Lexemes -/

/-- Lexemes at the heads of a text and of the changed text that are of one kind and end at the
same place. -/
inductive Alike (s : Text) : Lexeme → Lexeme → Prop where
  | token {kind : Kind} {n m : Nat} (cut : SameCut s n m)
      (plain : kind = .ident → carriageReturn ∉ s.take n) : Alike s (token kind n) (token kind m)
  | raw {lead size total lead' size' total' : Nat} (front : SameCut s lead lead')
      (kept : ((unixLines s).drop lead').take size' = unixLines ((s.drop lead).take size))
      (cut : SameCut s total total') : Alike s (raw lead size total) (raw lead' size' total')
  | openString : Alike s openString openString
  | openRaw : Alike s openRaw openRaw

theorem isBlank_return : isBlank carriageReturn = isBlank Cursor.lineFeed := rfl

theorem isSeparator_return :
    (!isSeparator carriageReturn) = !isSeparator Cursor.lineFeed := rfl

/-- A text without the blanks at its ends. -/
theorem trimmed_unixLines (s : Text) :
    (((unixLines s).dropWhile isBlank).reverse.dropWhile isBlank).reverse =
      unixLines ((s.dropWhile isBlank).reverse.dropWhile isBlank).reverse := by
  rw [dropWhile_unixLines isBlank_return, dropWhile_reverse_unixLines isBlank_return,
    List.reverse_reverse]

/-- The brace that closes a raw literal ends the blanks before it. -/
theorem takeWhile_blank_append (inner rest : Text) :
    (inner ++ closeBrace :: rest).takeWhile isBlank = inner.takeWhile isBlank := by
  have hstop : (closeBrace :: rest).takeWhile isBlank = [] := rfl
  rw [List.takeWhile_append, hstop, List.append_nil]
  split
  · rename_i hall
    exact ((List.takeWhile_prefix _).eq_of_length hall).symm
  · rfl

/-- What is kept of a raw literal stands behind its opening and the blanks. -/
theorem take_kept {inner l core z : Text} (h : inner = l ++ (core ++ z)) (back : Text) :
    ((Text.ofString "-\x7b" ++ (inner ++ back)).drop (2 + l.length)).take core.length = core := by
  have hlead : 2 + l.length = (Text.ofString "-\x7b" ++ l).length := by
    rw [List.length_append]
    rfl
  rw [h, hlead, List.append_assoc, ← List.append_assoc, List.drop_left, List.append_assoc,
    List.take_left]

/-- The size of the dash that may follow a raw literal. -/
def dashSize (rest : Text) : Nat := if rest.head? = some (Text.byte '-') then 1 else 0

theorem dashSize_unixLines (rest : Text) : dashSize (unixLines rest) = dashSize rest := by
  simp only [dashSize, head?_unixLines_eq_some_iff (b := Text.byte '-') (by decide) (by decide)]

/-- The brace that closes a raw literal and the dash that may follow it. -/
theorem dashSize_cut (rest : Text) :
    SameCut (closeBrace :: rest) (1 + dashSize rest) (1 + dashSize rest) := by
  refine SameCut.cons (not_breaksLine (by decide) rest) ?_
  rw [dashSize]
  split
  · rename_i hhead
    obtain ⟨back, rfl⟩ := List.head?_eq_some_iff.1 hhead
    exact (SameCut.zero back).cons (not_breaksLine (by decide) back)
  · exact .zero _

/-- A raw literal read off its inner text and what follows it. -/
theorem rawLiteral_eq_raw {inner rest : Text}
    (h : rawSize? 0 (inner ++ closeBrace :: rest) = some inner.length) :
    rawLiteral (inner ++ closeBrace :: rest) =
      raw (2 + (inner.takeWhile isBlank).length)
        ((inner.dropWhile isBlank).reverse.dropWhile isBlank).reverse.length
        (2 + (inner.length + (1 + dashSize rest))) := by
  have hbehind : (inner ++ closeBrace :: rest).drop (inner.length + 1) = rest := by
    rw [← List.drop_drop, List.drop_left]
    rfl
  rw [rawLiteral, h]
  dsimp only
  rw [List.take_left, hbehind, drop_length_takeWhile, List.length_reverse, Nat.add_assoc 2,
    Nat.add_assoc 2, Nat.add_assoc inner.length]
  rfl

theorem rawLiteral_alike (r : Text) :
    Alike (Text.ofString "-\x7b" ++ r) (rawLiteral r) (rawLiteral (unixLines r)) := by
  have hopen {t : Text} {n m : Nat} (h : SameCut t n m) :
      SameCut (Text.ofString "-\x7b" ++ t) (2 + n) (2 + m) := by
    have hcut := (h.cons (not_breaksLine (by decide) t)).cons
      (not_breaksLine (a := Text.byte '-') (by decide) (openBrace :: t))
    rwa [← Nat.add_assoc, ← Nat.add_assoc] at hcut
  have hsize := rawSize?_cut 0 r
  cases hn : rawSize? 0 r with
  | none =>
    rw [hn] at hsize
    rw [rawLiteral, rawLiteral, hn]
    generalize rawSize? 0 (unixLines r) = found at hsize
    cases hsize with
    | none => exact .openRaw
  | some n =>
    obtain ⟨-, rest, hrest⟩ := closesBraces_of_rawSize? hn
    have hlen : (r.take n).length = n :=
      List.length_take_of_le (Nat.le_of_lt (rawSize?_lt hn))
    have hr : r = r.take n ++ closeBrace :: rest := by rw [← hrest, List.take_append_drop]
    generalize r.take n = inner at hlen hr
    subst hr hlen
    rw [hn] at hsize
    cases hm : rawSize? 0 (unixLines (inner ++ closeBrace :: rest)) with
    | none => rw [hm] at hsize; cases hsize
    | some m =>
      rw [hm] at hsize
      cases hsize with
      | some hcut =>
        have hsplit : unixLines (inner ++ closeBrace :: rest) =
            unixLines inner ++ closeBrace :: unixLines rest := by
          rw [unixLines_of_parted hcut.parted, List.take_left, List.drop_left,
            unixLines_cons_of_ne (by decide)]
        obtain rfl : m = (unixLines inner).length := by rw [hcut.size_eq, List.take_left]
        have hfront := takeWhile_cut isBlank_return (inner ++ closeBrace :: rest)
        rw [hsplit, takeWhile_blank_append, takeWhile_blank_append] at hfront
        rw [hsplit] at hm
        rw [rawLiteral_eq_raw hn, hsplit, rawLiteral_eq_raw hm, dashSize_unixLines]
        refine .raw (hopen hfront) ?_ (hopen (hcut.add ?_))
        · have hword : unixLines (Text.ofString "-\x7b" ++ (inner ++ closeBrace :: rest)) =
              Text.ofString "-\x7b" ++ (unixLines inner ++ closeBrace :: unixLines rest) := by
            rw [← hsplit]
            exact (unixLines_cons_of_ne (by decide) _).trans
              (congrArg _ (unixLines_cons_of_ne (by decide) _))
          rw [hword, take_kept (trims_dropWhile inner).split,
            take_kept (trims_dropWhile (unixLines inner)).split, trimmed_unixLines]
        · rw [List.drop_left]
          exact dashSize_cut rest

theorem string_alike (r : Text) :
    Alike (Text.ofString "\"" ++ r) (string r) (string (unixLines r)) := by
  have hsize := stringSize?_cut r
  rw [string, string]
  generalize stringSize? r = a at hsize
  generalize stringSize? (unixLines r) = b at hsize
  cases hsize with
  | none => exact .openString
  | some hcut => exact .token (hcut.cons (not_breaksLine (by decide) r)) (by simp)

/-- The first byte of a word is none that ends a line. -/
theorem word_alike {s : Text} (hs : ∀ b ∈ s.head?, b ≠ carriageReturn) :
    Alike s (word s) (word (unixLines s)) := by
  rw [word, word, Keyword.find?_unixLines]
  split
  · rename_i kind n hfound
    obtain ⟨hk, -⟩ := Keyword.find?_spec hfound
    exact .token (Keyword.find?_cut hfound) (by rintro rfl; exact absurd hk (by decide))
  · cases s with
    | nil => exact .token (.zero _) (by simp)
    | cons a r =>
      have ha : a ≠ carriageReturn := hs a rfl
      rw [unixLines_cons_of_ne ha, identSize, identSize]
      refine .token ((takeWhile_cut isSeparator_return r).cons (not_breaksLine ha r)) fun _ h => ?_
      rw [Nat.add_comm, List.take_succ_cons, List.mem_cons] at h
      rcases h with h | h
      · exact ha h.symm
      · have hstarts : r.take (r.takeWhile (!isSeparator ·)).length =
            r.takeWhile (!isSeparator ·) := (List.prefix_iff_eq_take.1 (List.takeWhile_prefix _)).symm
        rw [hstarts] at h
        exact absurd (List.mem_takeWhile_imp h) (by decide)

theorem oneLine_operators : ∀ o ∈ operators, (Text.ofString o.1).OneLine := by decide

theorem operator?_unixLines (s : Text) : operator? (unixLines s) = operator? s := by
  rw [operator?, operator?, ← List.head?_filterMap, ← List.head?_filterMap]
  refine congrArg List.head? (List.filterMap_congr fun o ho => ?_)
  dsimp only
  rw [Text.isPrefixOf_unixLines (oneLine_operators o ho)]

theorem operator?_cut {s : Text} {kind : Kind} {n : Nat} (h : operator? s = some (kind, n)) :
    SameCut s n n := by
  obtain ⟨o, ho, hfound⟩ := List.exists_of_findSome?_eq_some h
  dsimp only at hfound
  split at hfound
  · rename_i hstarts
    obtain ⟨rest, rfl⟩ := List.isPrefixOf_iff_prefix.1 hstarts
    obtain ⟨-, rfl⟩ := Prod.mk.inj (Option.some.inj hfound)
    exact .of_plain (oneLine_operators o ho).plain rest
  · cases hfound

/-- **The same lexeme stands at the head**, whichever way lines end. -/
theorem read_alike {s : Text} (hs : ∀ b ∈ s.head?, b ≠ carriageReturn) :
    Alike s (read s) (read (unixLines s)) := by
  have hdigits : digitsSize (unixLines s) = 0 ↔ digitsSize s = 0 :=
    (digitsSize_cut s).eq_zero_iff (digitsSize_le s)
  rw [read, read, operator?_unixLines, Text.after?_unixLines (by decide),
    Text.after?_unixLines (by decide)]
  by_cases hzero : digitsSize s = 0
  · rw [if_neg (not_not.2 hzero), if_neg (not_not.2 (hdigits.2 hzero))]
    cases hraw : s.after? (Text.ofString "-\x7b") with
    | some r =>
      rw [Text.after?_eq_some_iff.1 hraw]
      exact rawLiteral_alike r
    | none =>
      cases hstring : s.after? (Text.ofString "\"") with
      | some r =>
        rw [Text.after?_eq_some_iff.1 hstring]
        exact string_alike r
      | none =>
        cases hop : operator? s with
        | some found =>
          obtain ⟨hkind, -⟩ := operator?_spec hop
          exact .token (operator?_cut hop) (fun h => by rw [h] at hkind; exact absurd hkind (by decide))
        | none => exact word_alike hs
  · rw [if_pos hzero, if_pos (mt hdigits.1 hzero)]
    exact .token (numberSize_cut s) (by simp)

end Lexeme

/-! ## Reading side by side -/

open Source (unixLines SameCut carriageReturn)

/-- What a finding says, wherever it is. -/
def Diagnostic.wording (d : Diagnostic) : Code × Severity × Text := (d.code, d.severity, d.message)

/-- Tokens of one kind on one line whose texts differ in line ends only; the texts are those of
their spans if words can index the content. -/
structure Token.Alike (content : Text) (t t' : Token) : Prop where
  kind : t'.kind = t.kind
  line : t'.line = t.line
  text : content.length < 2 ^ 32 → t'.text (unixLines content) = unixLines (t.text content)

namespace Cursor

/-- On a content that words can index, the text of a token is what its span covers. -/
theorem At.text_span {file : FileId} {content : Text} {pos : Nat} {c : Cursor}
    (h : c.At file content pos) (kind : Kind) (line : UInt32) {lead size : Nat}
    (hle : lead + size ≤ c.rest.length) (hshort : content.length < 2 ^ 32) :
    Token.text ⟨kind, line, c.span lead size⟩ content = (c.rest.drop lead).take size := by
  have hsize : UInt32.size = 2 ^ 32 := rfl
  have hlen := h.length_rest
  have hin := h.inside
  rw [Token.text, h.span_eq, Span.slice, UInt32.toNat_ofNat_of_lt' (by omega),
    UInt32.toNat_ofNat_of_lt' (by omega), h.rest_eq, List.drop_drop]
  congr 1
  omega

/-- Cursors at the same cut of a content and of the changed content. -/
structure Alike (file : FileId) (content : Text) (pos pos' : Nat) (c c' : Cursor) : Prop where
  left : c.At file content pos
  right : c'.At file (unixLines content) pos'
  cut : SameCut content pos pos'

end Cursor

/-- Fetches that give the same token and the same report, and go on from the same cut. -/
structure Fetch.Alike (file : FileId) (content : Text) (f f' : Fetch) : Prop where
  token : f.token.Alike content f'.token
  report : f'.report.map Diagnostic.wording = f.report.map Diagnostic.wording
  cursor : ∃ pos pos', f.cursor.Alike file content pos pos' f'.cursor

/-- What fetches report, taken together. -/
theorem Fetch.Alike.wordings {file : FileId} {content : Text} {fs fs' : List Fetch}
    (h : List.Forall₂ (Fetch.Alike file content) fs fs') :
    (fs'.filterMap (·.report)).map Diagnostic.wording =
      (fs.filterMap (·.report)).map Diagnostic.wording := by
  rw [List.map_filterMap, List.map_filterMap]
  induction h with
  | nil => rfl
  | cons h _ ih => rw [List.filterMap_cons, List.filterMap_cons, h.report, ih]

namespace Cursor.Alike

variable {file : FileId} {content : Text} {pos pos' : Nat} {c c' : Cursor}

theorem rest_eq (h : c.Alike file content pos pos' c') : c'.rest = unixLines c.rest := by
  rw [h.right.rest_eq, h.cut.drop, h.left.rest_eq]

theorem line_eq (h : c.Alike file content pos pos' c') : c'.line = c.line := by
  rw [h.right.line_eq, h.left.line_eq, lineAt, lineAt, h.cut.take,
    Source.count_lineFeed_unixLines]

theorem skip (h : c.Alike file content pos pos' c') {n m : Nat} (hcut : SameCut c.rest n m)
    (hn : n ≤ c.rest.length) :
    (c.skip n).Alike file content (pos + n) (pos' + m) (c'.skip m) where
  left := h.left.skip hn
  right := h.right.skip (by rw [h.rest_eq]; exact hcut.le)
  cut := h.cut.add (by rw [← h.left.rest_eq]; exact hcut)

theorem skipTrivia (h : c.Alike file content pos pos' c') :
    ∃ p p', c.skipTrivia.Alike file content p p' c'.skipTrivia := by
  have hskip := h.skip (Lexeme.triviaSize_cut false c.rest) (Lexeme.triviaSize_le false c.rest)
  rw [← h.rest_eq] at hskip
  exact ⟨_, _, hskip⟩

theorem endToken (h : c.Alike file content pos pos' c') :
    c.endToken.Alike content c'.endToken := by
  have hempty (d : Cursor) (text : Text) : d.endToken.text text = [] := by
    rw [Token.text, Span.slice]
    exact List.take_eq_nil_iff.2 (.inl (Nat.sub_self _))
  exact ⟨rfl, h.line_eq, fun _ => by rw [hempty, hempty]; rfl⟩

theorem unclosed (h : c.Alike file content pos pos' c') (code : Code) (message : Text) :
    (c.unclosed code message).Alike file content (c'.unclosed code message) := by
  have hend := h.skip (.whole c.rest) (Nat.le_refl _)
  rw [← h.rest_eq] at hend
  exact ⟨hend.endToken, rfl, _, _, hend⟩

theorem take (h : c.Alike file content pos pos' c') {kind : Kind} {n m : Nat}
    (hcut : SameCut c.rest n m) (hn : n ≤ c.rest.length)
    (hplain : kind = .ident → carriageReturn ∉ c.rest.take n) :
    (c.take kind n).Alike file content (c'.take kind m) := by
  have htext : c'.rest.take m = unixLines (c.rest.take n) := by rw [h.rest_eq, hcut.take]
  refine ⟨⟨rfl, h.line_eq, fun hshort => ?_⟩, ?_, _, _, h.skip hcut hn⟩
  · have hshort' := Nat.lt_of_le_of_lt (Source.length_unixLines_le content) hshort
    have hm : m ≤ c'.rest.length := by rw [h.rest_eq]; exact hcut.le
    rw [Cursor.take, Cursor.take, h.left.text_span _ _ (by omega) hshort,
      h.right.text_span _ _ (by omega) hshort', List.drop_zero, List.drop_zero, htext]
  · rw [Cursor.take, Cursor.take]
    dsimp only
    by_cases hident : kind = .ident
    · rw [htext, Source.unixLines_eq_self (hplain hident)]
      split <;> rfl
    · rw [if_neg fun h => hident h.1, if_neg fun h => hident h.1]

theorem raw (h : c.Alike file content pos pos' c') {lead size total lead' size' total' : Nat}
    (front : SameCut c.rest lead lead')
    (kept : ((unixLines c.rest).drop lead').take size' = unixLines ((c.rest.drop lead).take size))
    (cut : SameCut c.rest total total') (hfits : (Lexeme.raw lead size total).Fits c.rest)
    (hfits' : (Lexeme.raw lead' size' total').Fits c'.rest) :
    Fetch.Alike file content
      { token := ⟨.rawLit, c.line + lineFeeds (c.rest.take lead), c.span lead size⟩
        cursor := c.skip total }
      { token := ⟨.rawLit, c'.line + lineFeeds (c'.rest.take lead'), c'.span lead' size'⟩
        cursor := c'.skip total' } := by
  obtain ⟨hlt, hle⟩ := hfits
  obtain ⟨hlt', hle'⟩ := hfits'
  refine ⟨⟨rfl, ?_, fun hshort => ?_⟩, rfl, _, _, h.skip cut hle⟩
  · rw [h.rest_eq, front.take, lineFeeds, Source.count_lineFeed_unixLines, h.line_eq]
    rfl
  · have hshort' := Nat.lt_of_le_of_lt (Source.length_unixLines_le content) hshort
    rw [h.left.text_span _ _ (by omega) hshort, h.right.text_span _ _ (by omega) hshort',
      h.rest_eq, kept]

/-- A token behind all trivia. -/
theorem fetchHere (h : c.Alike file content pos pos' c')
    (htrivia : Lexeme.triviaSize false c.rest = 0) :
    c.fetchHere.Alike file content c'.fetchHere := by
  by_cases hrest : c.rest = []
  · have hrest' : c'.rest = [] := by rw [h.rest_eq, hrest]; rfl
    rw [Cursor.fetchHere, Cursor.fetchHere, if_pos hrest, if_pos hrest']
    exact ⟨h.endToken, rfl, pos, pos', h⟩
  · have hrest' : c'.rest ≠ [] := by rwa [h.rest_eq, Ne, Source.unixLines_eq_nil_iff]
    have hfirst : ∀ b ∈ c.rest.head?, b ≠ carriageReturn := by
      rintro b hb rfl
      obtain ⟨r, hr⟩ := List.head?_eq_some_iff.1 hb
      rw [hr, Lexeme.triviaSize, if_pos (by decide)] at htrivia
      omega
    have hread := Lexeme.read_alike hfirst
    have hfits := Lexeme.read_fits hrest
    have hfits' := Lexeme.read_fits hrest'
    rw [← h.rest_eq] at hread
    rw [Cursor.fetchHere, Cursor.fetchHere, if_neg hrest, if_neg hrest']
    generalize Lexeme.read c.rest = found at hread hfits
    generalize Lexeme.read c'.rest = found' at hread hfits'
    cases hread with
    | token cut plain => exact h.take cut hfits.2.1 plain
    | raw front kept cut => exact h.raw front kept cut hfits hfits'
    | openString => exact h.unclosed _ _
    | openRaw => exact h.unclosed _ _

theorem fetch (h : c.Alike file content pos pos' c') : c.fetch.Alike file content c'.fetch := by
  obtain ⟨p, p', htrivia⟩ := h.skipTrivia
  exact htrivia.fetchHere (Lexeme.triviaSize_drop false c.rest)

/-- **Both contents are read side by side to the end.** -/
theorem fetchAll (h : c.Alike file content pos pos' c') :
    List.Forall₂ (Fetch.Alike file content) c.fetchAll c'.fetchAll := by
  fun_induction Cursor.fetchAll c generalizing pos pos' c' with
  | case1 c hend =>
    have hfetch := h.fetch
    rw [Cursor.fetchAll, dif_pos (hfetch.token.kind.trans hend)]
    exact .cons hfetch .nil
  | case2 c hend ih =>
    have hfetch := h.fetch
    obtain ⟨p, p', hcursor⟩ := hfetch.cursor
    have hmore : c'.fetchAll = c'.fetch :: c'.fetch.cursor.fetchAll := by
      rw [Cursor.fetchAll, dif_neg fun hend' => hend (hfetch.token.kind.symm.trans hend')]
    rw [hmore]
    exact .cons hfetch (ih hcursor)

end Cursor.Alike

/-- **Carriage returns before line feeds do not matter to the lexer.**  A content and the
content with line feeds in the place of carriage returns with line feeds have as many tokens,
and those at the same place are of one kind and on one line.  If words can index the content,
the text of the one is that of the other with line feeds in the place of both.  The same is
reported in the same order. -/
theorem tokenize_unixLines (file : FileId) (content : Text) :
    List.Forall₂ (fun t t' => t'.kind = t.kind ∧ t'.line = t.line ∧
        (content.length < 2 ^ 32 →
          t'.text (unixLines content) = (t.text content).replace "\r\n" "\n"))
      (tokenize file content).tokens (tokenize file (unixLines content)).tokens ∧
    (tokenize file (unixLines content)).reports.map (fun d => (d.code, d.severity, d.message)) =
      (tokenize file content).reports.map fun d => (d.code, d.severity, d.message) := by
  have hstart : (Cursor.start file content).Alike file content 0 0
      (Cursor.start file (unixLines content)) :=
    ⟨Cursor.start_at file content, Cursor.start_at file _, .zero content⟩
  have hall := hstart.fetchAll
  constructor
  · refine List.forall₂_map_left_iff.2 (List.forall₂_map_right_iff.2 (hall.imp ?_))
    intro f f' h
    refine ⟨h.token.kind, h.token.line, fun hshort => ?_⟩
    rw [h.token.text hshort, Source.unixLines_eq_replace]
  · exact Fetch.Alike.wordings hall

/-- A string with an escaped line end in it, and one that is left open below. -/
def escapedLineEnd : Text := "\"\\\r\n\"\r\n\""

/-- The backslash stands before the carriage return in the one text and before the line feed in
the other. -/
theorem tokenize_unixLines_escaped :
    escapedLineEnd.length < 2 ^ 32 ∧
      (tokenize 0 escapedLineEnd).tokens.map (·.text escapedLineEnd) =
        [Text.ofString "\"\\\r\n\"", []] ∧
      List.Forall₂ (fun t t' => t'.kind = t.kind ∧ t'.line = t.line ∧
          t'.text (unixLines escapedLineEnd) = (t.text escapedLineEnd).replace "\r\n" "\n")
        (tokenize 0 escapedLineEnd).tokens (tokenize 0 (unixLines escapedLineEnd)).tokens ∧
      (tokenize 0 (unixLines escapedLineEnd)).reports.map (·.code) = [.openString] := by
  have hshort : escapedLineEnd.length < 2 ^ 32 := by decide
  obtain ⟨htokens, hreports⟩ := tokenize_unixLines 0 escapedLineEnd
  refine ⟨hshort, by decide +kernel, htokens.imp fun t t' h => ⟨h.1, h.2.1, h.2.2 hshort⟩, ?_⟩
  have hcodes := congrArg (List.map Prod.fst) hreports
  rw [List.map_map, List.map_map] at hcodes
  exact hcodes.trans (by decide +kernel)

end Tarjuman
