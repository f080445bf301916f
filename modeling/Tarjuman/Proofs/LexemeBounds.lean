/-
# How far a lexeme reaches

`Tarjuman.Token.Lexeme` gives every class of lexeme as a number of bytes at the
head of a text.  Here each of these numbers is shown to stay inside the text, and
the classes together give `Lexeme.read_fits`: whatever stands at the head of a
non-empty text takes up at least one byte and no more than there are, is never the
end of the input, and a raw literal keeps a part that ends before its closing
brace.
-/

import Mathlib.Data.List.Basic
import Tarjuman.Token.Lexeme

namespace Tarjuman

namespace Text

/-- What follows a prefix, read off the list. -/
theorem isPrefixOf?_eq_some_iff {α : Type} [BEq α] [LawfulBEq α] {p s r : List α} :
    p.isPrefixOf? s = some r ↔ s = p ++ r := by
  induction p generalizing s with
  | nil => simp [List.isPrefixOf?, eq_comm]
  | cons a p ih =>
    cases s with
    | nil => simp [List.isPrefixOf?]
    | cons b s =>
      by_cases hab : a = b
      · subst hab
        simp [List.isPrefixOf?, ih]
      · simp [List.isPrefixOf?, hab, Ne.symm hab]

theorem after?_eq_some_iff {s p r : Text} : s.after? p = some r ↔ s = p ++ r :=
  isPrefixOf?_eq_some_iff

end Text

namespace Keyword

/-- A keyword ends inside the text it stands in. -/
theorem size?_le {k : Keyword} {s : Text} {n : Nat} (h : k.size? s = some n) : n ≤ s.length := by
  rw [size?] at h
  split at h
  · cases h
  · rename_i rest hs
    obtain rfl := Text.isPrefixOf?_eq_some_iff.1 hs
    rw [List.length_append]
    split at h
    · obtain ⟨d, hd, rfl⟩ := Option.map_eq_some_iff.1 h
      have hrest : d ≤ rest.length := by
        cases rest with
        | nil => exact Nat.le_of_eq (Option.some.inj hd).symm
        | cons b r =>
          rw [delimiterSize?] at hd
          rw [List.length_cons]
          split at hd
          · have := Option.some.inj hd; omega
          · split at hd
            · have := Option.some.inj hd; omega
            · cases hd
      omega
    · have := Option.some.inj h
      omega

/-- The kinds of keywords are neither literals nor the end of the input. -/
theorem isKeyword_kind : ∀ k ∈ table, k.kind.isKeyword = true := by decide

/-- A keyword that is found has the kind of a keyword and ends inside the text. -/
theorem find?_spec {s : Text} {kind : Kind} {n : Nat} (h : find? s = some (kind, n)) :
    kind.isKeyword = true ∧ n ≤ s.length := by
  obtain ⟨k, hk, h⟩ := List.exists_of_findSome?_eq_some h
  obtain ⟨m, hm, h⟩ := Option.map_eq_some_iff.1 h
  obtain ⟨rfl, rfl⟩ := Prod.mk.inj h
  exact ⟨isKeyword_kind k hk, size?_le hm⟩

end Keyword

namespace Lexeme

theorem triviaSize_le (comment : Bool) (s : Text) : triviaSize comment s ≤ s.length := by
  fun_induction triviaSize comment s with
  | case1 => exact Nat.zero_le _
  | case2 b r ih => rw [List.length_cons]; omega
  | case3 b r _ ih => rw [List.length_cons]; omega
  | case4 b r _ _ ih => rw [List.length_cons]; omega
  | case5 => exact Nat.zero_le _

theorem digitsSize_le (s : Text) : digitsSize s ≤ s.length := by
  fun_induction digitsSize s with
  | case1 => exact Nat.zero_le _
  | case2 a r _ ih => rw [List.length_cons]; omega
  | case3 => exact Nat.zero_le _
  | case4 a _ b r _ ih => rw [List.length_cons, List.length_cons]; omega
  | case5 => exact Nat.zero_le _

theorem numberSize_le (s : Text) : numberSize s ≤ s.length := by
  have hwhole := digitsSize_le s
  rw [numberSize]
  split
  · rename_i b r hs
    have hlen := congrArg List.length hs
    rw [List.length_drop, List.length_cons] at hlen
    have hfraction := digitsSize_le r
    split <;> omega
  · exact hwhole

theorem stringSize?_le {r : Text} {n : Nat} (h : stringSize? r = some n) : n ≤ r.length := by
  fun_induction stringSize? r generalizing n with
  | case1 => exact absurd h nofun
  | case2 b r _ =>
    have := Option.some.inj h
    rw [List.length_cons]; omega
  | case3 => exact absurd h nofun
  | case4 b _ _ _ r ih =>
    obtain ⟨m, hm, rfl⟩ := Option.map_eq_some_iff.1 h
    have := ih hm
    rw [List.length_cons, List.length_cons]; omega
  | case5 b r _ _ ih =>
    obtain ⟨m, hm, rfl⟩ := Option.map_eq_some_iff.1 h
    have := ih hm
    rw [List.length_cons]; omega

/-- The closing brace of a raw literal stands behind its inner text. -/
theorem rawSize?_lt {depth : Nat} {r : Text} {n : Nat} (h : rawSize? depth r = some n) :
    n < r.length := by
  fun_induction rawSize? depth r generalizing n with
  | case1 => exact absurd h nofun
  | case2 b r _ =>
    have := Option.some.inj h
    rw [List.length_cons]; omega
  | case3 b r _ ih =>
    obtain ⟨m, hm, rfl⟩ := Option.map_eq_some_iff.1 h
    have := ih hm
    rw [List.length_cons]; omega
  | case4 d b r depth =>
    rename_i ih
    obtain ⟨m, hm, rfl⟩ := Option.map_eq_some_iff.1 h
    have := ih hm
    rw [List.length_cons]; omega

theorem identSize_le (s : Text) : identSize s ≤ s.length := by
  cases s with
  | nil => exact Nat.le_refl 0
  | cons a r =>
    have := (List.takeWhile_prefix (l := r) (!isSeparator ·)).length_le
    rw [identSize, List.length_cons]
    omega

/-- The kinds of operators are neither literals nor the end of the input. -/
theorem isPunctuation_operators : ∀ o ∈ operators, o.2.isPunctuation = true := by decide

/-- An operator that is found has the kind of an operator and ends inside the text. -/
theorem operator?_spec {s : Text} {k : Kind} {n : Nat} (h : operator? s = some (k, n)) :
    k.isPunctuation = true ∧ n ≤ s.length := by
  obtain ⟨o, ho, h⟩ := List.exists_of_findSome?_eq_some h
  dsimp only at h
  split at h
  · rename_i hpre
    obtain ⟨rfl, rfl⟩ := Prod.mk.inj (Option.some.inj h)
    exact ⟨isPunctuation_operators o ho, (List.isPrefixOf_iff_prefix.1 hpre).length_le⟩
  · exact absurd h nofun

/-- The lexeme lies at the head of the non-empty text `s`: it makes progress, stays
inside, and has no kind that only the end of the input or a raw literal has. -/
def Fits (s : Text) : Lexeme → Prop
  | token kind size => 0 < size ∧ size ≤ s.length ∧ kind ≠ .endOfInput ∧ kind ≠ .rawLit
  | raw lead size total => lead + size < total ∧ total ≤ s.length
  | openString | openRaw => s ≠ []

/-- The part of a raw literal that is kept ends before its closing brace. -/
theorem rawLiteral_fits {s r : Text} (h : s = Text.ofString "-\x7b" ++ r) :
    (rawLiteral r).Fits s := by
  have hs : s.length = 2 + r.length := by rw [h, List.length_append]; rfl
  rw [rawLiteral]
  split
  · exact List.ne_nil_of_length_pos (by omega)
  · rename_i n hn
    have hlt := rawSize?_lt hn
    have hlen : (r.take n).length = n := by rw [List.length_take]; omega
    have hmargin := (List.takeWhile_prefix (l := r.take n) isBlank).length_le
    have hkept := (List.dropWhile_suffix (l := ((r.take n).drop
      ((r.take n).takeWhile isBlank).length).reverse) isBlank).length_le
    rw [List.length_reverse, List.length_drop, hlen] at hkept
    have hdash : (if (r.drop (n + 1)).head? = some (Text.byte '-') then 1 else 0) ≤
        r.length - (n + 1) := by
      split
      · rename_i hd
        have := List.length_pos_of_mem (List.mem_of_head? hd)
        rwa [List.length_drop] at this
      · exact Nat.zero_le _
    refine ⟨?_, ?_⟩
    · omega
    · omega

/-- The string at the head of a text stays inside of it. -/
theorem string_fits {s r : Text} (h : s = Text.ofString "\"" ++ r) : (string r).Fits s := by
  have hs : s.length = 1 + r.length := by rw [h, List.length_append]; rfl
  rw [string]
  split
  · exact List.ne_nil_of_length_pos (by omega)
  · rename_i n hn
    have hle := stringSize?_le hn
    exact ⟨by omega, by omega, by decide, by decide⟩

/-- The keyword or identifier at the head of a non-empty text stays inside of it. -/
theorem word_fits {s : Text} (h : s ≠ []) : (word s).Fits s := by
  rw [word]
  split
  · rename_i kind n hk
    obtain ⟨hkind, hle⟩ := Keyword.find?_spec hk
    refine ⟨Keyword.find?_pos hk, hle, ?_, ?_⟩ <;> rintro rfl <;> exact absurd hkind (by decide)
  · exact ⟨identSize_pos h, identSize_le s, by decide, by decide⟩

/-- **What is read fits the text.**  The lexeme at the head of a non-empty text takes
up at least one of its bytes and only bytes that are there. -/
theorem read_fits {s : Text} (h : s ≠ []) : (read s).Fits s := by
  rw [read]
  split
  · rename_i hd
    have hpos := digitsSize_le_numberSize s
    exact ⟨by omega, numberSize_le s, by decide, by decide⟩
  · split
    · rename_i hraw
      exact rawLiteral_fits (Text.after?_eq_some_iff.1 hraw)
    · rename_i hstring
      exact string_fits (Text.after?_eq_some_iff.1 hstring)
    · rename_i kind n hop
      obtain ⟨hkind, hle⟩ := operator?_spec hop
      refine ⟨operator?_pos hop, hle, ?_, ?_⟩ <;> rintro rfl <;> exact absurd hkind (by decide)
    · exact word_fits h

end Lexeme
end Tarjuman
