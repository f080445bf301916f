/-
# Characters are read back

The encoding of a character is decoded to that character, whatever bytes follow
(`Utf8.decode?_encode_append`), so a text that was made of characters is read as those
characters (`Utf8.chars_ofChars_append`).  The bytes of a character are given by its number
alone (`Utf8.Layout`), and what is decoded to it is laid out the same way, so it is its
encoding (`Utf8.exists_encode_of_decode?`).
-/

import Tarjuman.Text.Utf8

namespace Tarjuman
namespace Utf8

theorem scalar?_toNat (c : Char) : scalar? c.toNat = some c := by
  have hvalid : c.toNat.isValidChar := c.valid
  rw [scalar?, dif_pos hvalid]
  exact congrArg some (Char.toNat_inj.1 rfl)

theorem toNat_of_scalar? {n : Nat} {c : Char} (h : scalar? n = some c) : c.toNat = n := by
  by_cases hvalid : n.isValidChar
  · rw [scalar?, dif_pos hvalid] at h
    obtain rfl := Option.some.inj h
    rfl
  · rw [scalar?, dif_neg hvalid] at h
    cases h

theorem toNat_lt (c : Char) : c.toNat < 0x110000 := by
  have hvalid : c.toNat.isValidChar := c.valid
  rw [Nat.isValidChar] at hvalid
  omega

/-- A continuation byte holds the six bits that were put into it. -/
theorem tail_ofNat (n : Nat) :
    isTail (UInt8.ofNat (n % 64 + 128)) = true ∧ low6 (UInt8.ofNat (n % 64 + 128)) = n % 64 := by
  have hbyte : (UInt8.ofNat (n % 64 + 128)).toNat = n % 64 + 128 :=
    UInt8.toNat_ofNat_of_lt' (by rw [show UInt8.size = 256 from rfl]; omega)
  constructor
  · simp only [isTail, Bool.and_eq_true, decide_eq_true_eq, UInt8.le_iff_toNat_le, hbyte]
    exact ⟨Nat.le_add_left _ _, by show _ ≤ 191; omega⟩
  · rw [low6, hbyte]
    omega

/-- The first byte of an encoding as a number. -/
theorem toNat_first {n : Nat} (h : n < 256) : (UInt8.ofNat n).toNat = n :=
  UInt8.toNat_ofNat_of_lt' h

/-- **A character is decoded from its encoding**, whatever follows. -/
theorem decode?_encode_append (c : Char) (r : Text) : decode? (encode c ++ r) = some c := by
  have hlt := toNat_lt c
  have hscalar := scalar?_toNat c
  have htail := tail_ofNat
  generalize hn : c.toNat = n at hlt hscalar
  replace hn : c.val.toNat = n := hn
  rw [encode, String.utf8EncodeChar, hn]
  -- One case for each length of an encoding, which is also that of the decoder.
  split
  · have hfirst := toNat_first (n := n) (by omega)
    simp only [List.cons_append, decode?, UInt8.lt_iff_toNat_lt, hfirst, hscalar]
    rw [if_pos (by show n < 128; omega)]
  split
  · have hfirst := toNat_first (n := n / 64 % 32 + 192) (by omega)
    have hvalue : (n / 64 % 32 + 192) % 32 * 64 + n % 64 = n := by omega
    simp only [List.cons_append, decode?, UInt8.lt_iff_toNat_lt, hfirst, htail, hvalue, hscalar,
      if_true]
    rw [if_neg (by show ¬ _ < 128; omega), if_neg (by show ¬ _ < 194; omega),
      if_pos (by show _ < 224; omega)]
  split
  · have hfirst := toNat_first (n := n / 4096 % 16 + 224) (by omega)
    have hvalue : ((n / 4096 % 16 + 224) % 16 * 64 + n / 64 % 64) * 64 + n % 64 = n := by omega
    have hlong : decide (0x800 ≤ n) = true := decide_eq_true (by omega)
    simp only [List.cons_append, decode?, UInt8.lt_iff_toNat_lt, hfirst, htail, hvalue, hscalar,
      hlong, Bool.and_self, if_true]
    rw [if_neg (by show ¬ _ < 128; omega), if_neg (by show ¬ _ < 194; omega),
      if_neg (by show ¬ _ < 224; omega), if_pos (by show _ < 240; omega)]
  · have hfirst := toNat_first (n := n / 262144 % 8 + 240) (by omega)
    have hvalue : (((n / 262144 % 8 + 240) % 8 * 64 + n / 4096 % 64) * 64 + n / 64 % 64) * 64 +
        n % 64 = n := by omega
    have hlong : decide (0x10000 ≤ n) = true := decide_eq_true (by omega)
    simp only [List.cons_append, decode?, UInt8.lt_iff_toNat_lt, hfirst, htail, hvalue, hscalar,
      hlong, Bool.and_self, if_true]
    rw [if_neg (by show ¬ _ < 128; omega), if_neg (by show ¬ _ < 194; omega),
      if_neg (by show ¬ _ < 224; omega), if_neg (by show ¬ _ < 240; omega),
      if_pos (by show _ < 245; omega)]

/-! ## Layout -/

/-- The bytes of the code point `n`: a first byte that tells how many there are, and six bits in
each of the others.  No code point has two layouts. -/
inductive Layout (n : Nat) : Text → Prop where
  | one {a : UInt8} (short : n < 0x80) (first : a.toNat = n) : Layout n [a]
  | two {a b : UInt8} (long : 0x80 ≤ n) (short : n < 0x800) (first : a.toNat = n / 64 + 192)
      (last : b.toNat = n % 64 + 128) : Layout n [a, b]
  | three {a b₁ b₂ : UInt8} (long : 0x800 ≤ n) (short : n < 0x10000)
      (first : a.toNat = n / 4096 + 224) (second : b₁.toNat = n / 64 % 64 + 128)
      (last : b₂.toNat = n % 64 + 128) : Layout n [a, b₁, b₂]
  | four {a b₁ b₂ b₃ : UInt8} (long : 0x10000 ≤ n) (first : a.toNat = n / 262144 + 240)
      (second : b₁.toNat = n / 4096 % 64 + 128) (third : b₂.toNat = n / 64 % 64 + 128)
      (last : b₃.toNat = n % 64 + 128) : Layout n [a, b₁, b₂, b₃]

theorem Layout.unique {n : Nat} {s t : Text} (hs : Layout n s) (ht : Layout n t) : s = t := by
  have hbyte {a b : UInt8} {m : Nat} (ha : a.toNat = m) (hb : b.toNat = m) : a = b :=
    UInt8.toNat_inj.1 (ha.trans hb.symm)
  cases hs with
  | one short first =>
    cases ht with
    | one _ first' => rw [hbyte first first']
    | two | three | four => omega
  | two long short first last =>
    cases ht with
    | two _ _ first' last' => rw [hbyte first first', hbyte last last']
    | one | three | four => omega
  | three long short first second last =>
    cases ht with
    | three _ _ first' second' last' =>
      rw [hbyte first first', hbyte second second', hbyte last last']
    | one | two | four => omega
  | four long first second third last =>
    cases ht with
    | four _ first' second' third' last' =>
      rw [hbyte first first', hbyte second second', hbyte third third', hbyte last last']
    | one | two | three => omega

theorem layout_encode (c : Char) : Layout c.toNat (encode c) := by
  have hlt := toNat_lt c
  have hvalue : c.val.toNat = c.toNat := rfl
  rw [encode, String.utf8EncodeChar, hvalue]
  generalize c.toNat = n at hlt
  have htail (m : Nat) : (UInt8.ofNat (m % 64 + 128)).toNat = m % 64 + 128 :=
    toNat_first (by omega)
  split
  · exact .one (by omega) (toNat_first (by omega))
  split
  · exact .two (by omega) (by omega) (by rw [toNat_first (by omega)]; omega) (htail n)
  split
  · exact .three (by omega) (by omega) (by rw [toNat_first (by omega)]; omega) (htail _) (htail n)
  · exact .four (by omega) (by rw [toNat_first (by omega)]; omega) (htail _) (htail _) (htail n)

theorem toNat_isTail {b : UInt8} (h : isTail b = true) : 0x80 ≤ b.toNat ∧ b.toNat ≤ 0xBF := by
  simp only [isTail, Bool.and_eq_true, decide_eq_true_eq, UInt8.le_iff_toNat_le] at h
  exact h

/-- What is decoded is laid out at the head of the text. -/
theorem exists_layout_of_decode? {s : Text} {c : Char} (h : decode? s = some c) :
    ∃ p r, s = p ++ r ∧ Layout c.toNat p := by
  unfold decode? at h
  split at h
  · cases h
  · rename_i a r
    simp only [UInt8.lt_iff_toNat_lt] at h
    change (if a.toNat < 128 then _ else if a.toNat < 194 then _ else if a.toNat < 224 then _
      else if a.toNat < 240 then _ else if a.toNat < 245 then _ else _) = _ at h
    split at h
    · have hn := toNat_of_scalar? h
      exact ⟨[a], r, rfl, .one (by omega) hn.symm⟩
    split at h
    · cases h
    split at h
    · split at h
      · rename_i b r
        rw [Option.ite_none_right_eq_some] at h
        have hn := toNat_of_scalar? h.2
        have hb := toNat_isTail h.1
        rw [low6] at hn
        exact ⟨[a, b], r, rfl, .two (by omega) (by omega) (by omega) (by omega)⟩
      · cases h
    split at h
    · split at h
      · rename_i b₁ b₂ r
        simp only [Option.ite_none_right_eq_some, Bool.and_eq_true, decide_eq_true_eq] at h
        obtain ⟨⟨⟨h₁, h₂⟩, hlong⟩, h⟩ := h
        have hn := toNat_of_scalar? h
        have hb₁ := toNat_isTail h₁
        have hb₂ := toNat_isTail h₂
        rw [low6, low6] at hn hlong
        exact ⟨[a, b₁, b₂], r, rfl,
          .three (by omega) (by omega) (by omega) (by omega) (by omega)⟩
      · cases h
    split at h
    · split at h
      · rename_i b₁ b₂ b₃ r
        simp only [Option.ite_none_right_eq_some, Bool.and_eq_true, decide_eq_true_eq] at h
        obtain ⟨⟨⟨⟨h₁, h₂⟩, h₃⟩, hlong⟩, h⟩ := h
        have hn := toNat_of_scalar? h
        have hb₁ := toNat_isTail h₁
        have hb₂ := toNat_isTail h₂
        have hb₃ := toNat_isTail h₃
        rw [low6, low6, low6] at hn hlong
        exact ⟨[a, b₁, b₂, b₃], r, rfl,
          .four (by omega) (by omega) (by omega) (by omega) (by omega)⟩
      · cases h
    · cases h

/-- **What is decoded is what stands there**: the text starts with the encoding of the
character. -/
theorem exists_encode_of_decode? {s : Text} {c : Char} (h : decode? s = some c) :
    ∃ r, s = encode c ++ r := by
  obtain ⟨p, r, hs, hp⟩ := exists_layout_of_decode? h
  exact ⟨r, by rw [hs, hp.unique (layout_encode c)]⟩

/-! ## Texts -/

theorem length_encode (c : Char) : (encode c).length = c.utf8Size := String.length_utf8EncodeChar c

theorem encode_ne_nil (c : Char) : encode c ≠ [] := by
  rw [← List.length_pos_iff, length_encode]
  exact Char.utf8Size_pos c

/-- What is decoded takes up its encoding. -/
theorem encode_append_drop {b : UInt8} {r : Text} {c : Char} (h : decode? (b :: r) = some c) :
    encode c ++ r.drop (c.utf8Size - 1) = b :: r := by
  obtain ⟨t, ht⟩ := exists_encode_of_decode? h
  have hr : r = (encode c).tail ++ t := by
    rw [← List.tail_append_of_ne_nil (encode_ne_nil c), ← ht, List.tail_cons]
  rw [ht, hr, ← length_encode, ← List.length_tail, List.drop_left]

/-- A character below `0x80` is encoded as one byte. -/
theorem encode_of_lt {c : Char} (h : c.toNat < 0x80) : encode c = [UInt8.ofNat c.toNat] := by
  have hvalue : c.val.toNat = c.toNat := rfl
  rw [encode, String.utf8EncodeChar, hvalue, if_pos (by omega)]

/-- A character stands at the head of its encoding, whatever follows. -/
theorem head?_encode_append (c : Char) (r : Text) : head? (encode c ++ r) = some (.char c) := by
  have hdecode := decode?_encode_append c r
  obtain ⟨b, s, hs⟩ := List.exists_cons_of_ne_nil (encode_ne_nil c)
  rw [hs, List.cons_append] at hdecode ⊢
  rw [head?, hdecode]

/-- Bytes of an item that was given already are passed over. -/
theorem itemsFrom_append (s r : Text) : itemsFrom s.length (s ++ r) = itemsFrom 0 r := by
  induction s with
  | nil => rfl
  | cons b s ih => exact ih

theorem items_encode_append (c : Char) (r : Text) :
    items (encode c ++ r) = .char c :: items r := by
  have hdecode := decode?_encode_append c r
  have hlength := length_encode c
  obtain ⟨b, s, hs⟩ := List.exists_cons_of_ne_nil (encode_ne_nil c)
  rw [hs, List.cons_append] at hdecode ⊢
  rw [hs, List.length_cons] at hlength
  rw [items, itemsFrom, hdecode]
  dsimp only
  rw [← hlength, Nat.add_sub_cancel, itemsFrom_append, items]

/-- **A text that starts with characters is read as these** and what follows. -/
theorem chars_ofChars_append (cs : List Char) (r : Text) :
    chars (ofChars cs ++ r) = cs ++ chars r := by
  induction cs with
  | nil => rfl
  | cons c cs ih =>
    rw [ofChars, List.flatMap_cons, List.append_assoc, chars, items_encode_append, List.map_cons]
    exact congrArg (c :: ·) ih

theorem chars_ofChars (cs : List Char) : chars (ofChars cs) = cs := by
  have h := chars_ofChars_append cs []
  rwa [List.append_nil, show chars [] = [] from rfl, List.append_nil] at h

end Utf8
end Tarjuman
