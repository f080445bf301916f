/-
# Latin names stay as they are

The Latin spelling of a name is an identifier made of ASCII letters, digits and underscores,
and it is spelled as itself, for every way to take marks away that leaves ASCII alone
(`Latin.rename_stable`).  Letters, digits and underscores are written as they are, so that an
identifier that is no reserved word is not changed (`Latin.ofBare_of_name`).  Decomposing,
filtering and composing is such a way (`Latin.withoutMarks_of_ascii`): no character below `0x80`
decomposes, is a nonstarter, is a mark or makes another together with the one before it.  Nothing
else about the tables of characters is used.
-/

import Mathlib.Data.List.Basic
import Tarjuman.Proofs.CharacterBoundaries
import Tarjuman.Proofs.LatinNames

namespace Tarjuman

/-! ## ASCII is in normal form -/

namespace Utf8

/-- A text whose bytes are characters with some property is the encoding of such characters. -/
theorem exists_ofChars {P : Char → Prop} {s : Text} (h : ∀ b ∈ s, ∃ c, encode c = [b] ∧ P c) :
    ∃ cs : List Char, s = ofChars cs ∧ ∀ c ∈ cs, P c := by
  induction s with
  | nil => exact ⟨[], rfl, List.forall_mem_nil _⟩
  | cons b s ih =>
    rw [List.forall_mem_cons] at h
    obtain ⟨cs, rfl, hcs⟩ := ih h.2
    obtain ⟨c, hc, hP⟩ := h.1
    exact ⟨c :: cs, (congrArg (· ++ ofChars cs) hc).symm, List.forall_mem_cons.2 ⟨hP, hcs⟩⟩

end Utf8

namespace Unicode

open Utf8 (Item ofChars)

/-- The items of characters. -/
def charItems (cs : List Char) : List Item := cs.map .char

theorem bytes_charItems (cs : List Char) : (charItems cs).flatMap Item.bytes = ofChars cs := by
  rw [charItems, List.flatMap_map]
  rfl

variable {c : Char} {cs : List Char}

theorem decomposeChar_of_lt (h : c.toNat < 0x80) : decomposeChar c = [c] := by
  rw [decomposeChar, decomposeCode, if_pos (by omega), List.map_singleton, Char.ofNat_toNat]

theorem itemClass_of_lt (h : c.toNat < 0x80) : itemClass (.char c) = 0 := by
  rw [itemClass, combiningClass, if_pos (by omega)]

theorem itemNonstarters_of_lt (h : c.toNat < 0x80) : itemNonstarters (.char c) = (0, 0) := by
  rw [itemNonstarters, nonstarters, if_pos (by omega)]

/-- No character below `0x80` makes another together with the one before it. -/
theorem composePair?_of_lt (a : Char) (h : c.toNat < 0x80) : composePair? a c = none := by
  have hpairs : pairs.all (fun p => 0x80 ≤ p.2.2) = true := by decide +kernel
  have hhangul : composeHangul? a.toNat c.toNat = none := by
    rw [composeHangul?, if_neg (by omega), if_neg (by omega)]
  rw [composePair?, hhangul]
  dsimp only
  rw [Option.map_eq_none_iff, List.find?_eq_none]
  intro p hp
  have hsecond := of_decide_eq_true (List.all_eq_true.1 hpairs p hp)
  have hne : p.2.2 ≠ c.toNat := by omega
  simp [hne]

/-- Characters below `0x80` are read one by one, and nothing is left. -/
theorem splitTail_ofChars (h : ∀ c ∈ cs, c.toNat < 0x80) :
    splitTail 0 (ofChars cs) = (charItems cs, []) := by
  induction cs with
  | nil => rfl
  | cons c cs ih =>
    rw [List.forall_mem_cons] at h
    have hencode := Utf8.encode_of_lt h.1
    have hsize : c.utf8Size = 1 := by rw [← Utf8.length_encode, hencode]; rfl
    have hdecode := Utf8.decode?_encode_append c (ofChars cs)
    have hfirst : (UInt8.ofNat c.toNat).toNat = c.toNat := Utf8.toNat_first (by omega)
    have hone : Utf8.announced (UInt8.ofNat c.toNat) = 1 := by
      have hlow : UInt8.ofNat c.toNat < 0xC2 := by
        rw [UInt8.lt_iff_toNat_lt, hfirst]
        exact Nat.lt_trans h.1 (by decide)
      rw [Utf8.announced, if_pos hlow]
    rw [hencode, List.singleton_append] at hdecode
    rw [ofChars, List.flatMap_cons, hencode, List.singleton_append, ← ofChars, splitTail, hone,
      if_neg (by omega), hdecode]
    dsimp only
    rw [hsize, Nat.sub_self, ih h.2]
    rfl

theorem joined_charItems (h : ∀ c ∈ cs, c.toNat < 0x80) :
    joined 0 (charItems cs) = charItems cs := by
  induction cs with
  | nil => rfl
  | cons c cs ih =>
    rw [List.forall_mem_cons] at h
    rw [charItems, List.map_cons, joined, itemNonstarters_of_lt h.1]
    exact congrArg (Item.char c :: ·) (ih h.2)

theorem reordered_charItems (h : ∀ c ∈ cs, c.toNat < 0x80) (done : List Item) :
    reordered done (charItems cs) = done.reverse ++ charItems cs := by
  induction cs generalizing done with
  | nil => exact (List.append_nil _).symm
  | cons c cs ih =>
    rw [List.forall_mem_cons] at h
    rw [charItems, List.map_cons, reordered, if_pos (itemClass_of_lt h.1)]
    exact (ih h.2 _).trans (by rw [List.reverse_cons, List.append_assoc]; rfl)

theorem canonical_charItems (h : ∀ c ∈ cs, c.toNat < 0x80) :
    canonical (charItems cs) = charItems cs := by
  have hparts : (cs.flatMap fun c => (decomposeChar c).map Item.char) = charItems cs := by
    induction cs with
    | nil => rfl
    | cons c cs ih =>
      rw [List.forall_mem_cons] at h
      rw [List.flatMap_cons, decomposeChar_of_lt h.1, ih h.2]
      rfl
  rw [canonical, charItems, List.flatMap_map]
  exact (congrArg (reordered []) hparts).trans (reordered_charItems h [])

theorem recomposed_charItems (h : ∀ c ∈ cs, c.toNat < 0x80) (starter : Option Char) :
    recomposed starter [] (charItems cs) = starter.toList.map .char ++ charItems cs := by
  induction cs generalizing starter with
  | nil => rfl
  | cons c cs ih =>
    rw [List.forall_mem_cons] at h
    have hrest := ih h.2 (some c)
    rw [charItems] at hrest
    rw [charItems, List.map_cons, recomposed.eq_def]
    cases starter with
    | none => simp [itemClass_of_lt h.1, hrest]
    | some s => simp [itemClass_of_lt h.1, composePair?_of_lt s h.1, hrest]

theorem decomposed_ofChars (h : ∀ c ∈ cs, c.toNat < 0x80) :
    decomposed (ofChars cs) = ofChars cs := by
  rw [decomposed, splitTail_ofChars h]
  dsimp only
  rw [joined_charItems h, canonical_charItems h, bytes_charItems, List.append_nil]

theorem composed_ofChars (h : ∀ c ∈ cs, c.toNat < 0x80) : composed (ofChars cs) = ofChars cs := by
  rw [composed, splitTail_ofChars h]
  dsimp only
  rw [joined_charItems h, canonical_charItems h, recomposed_charItems h none]
  exact (List.append_nil _).trans (bytes_charItems cs)

theorem isMark_of_lt (h : c.toNat < 0x80) : isMark c = false := by
  have hlow : decide (0x300 ≤ c.toNat) = false := decide_eq_false (by omega)
  simp only [isMark, hlow, Bool.false_and]

end Unicode

namespace Latin

/-- **Taking away marks leaves ASCII alone.** -/
theorem withoutMarks_of_ascii {s : Text} (h : ∀ b ∈ s, Utf8.isSingle b = true) :
    withoutMarks s = s := by
  obtain ⟨cs, rfl, hcs⟩ :=
    Utf8.exists_ofChars fun b hb => Utf8.exists_encode_of_isSingle (h b hb)
  have hfilter : cs.filter (!Unicode.isMark ·) = cs := by
    rw [List.filter_eq_self]
    intro c hc
    rw [Unicode.isMark_of_lt (hcs c hc)]
    rfl
  rw [withoutMarks, Unicode.decomposed_ofChars hcs, Utf8.chars_ofChars, hfilter,
    Unicode.composed_ofChars hcs]

/-! ## Identifiers -/

/-- An ASCII letter or an underscore. -/
def isNameStart (b : UInt8) : Bool :=
  (0x41 ≤ b && b ≤ 0x5A) || (0x61 ≤ b && b ≤ 0x7A) || b == 0x5F

/-- The text is an ASCII identifier, `[A-Za-z_][A-Za-z0-9_]*`. -/
def isIdentifier : Text → Bool
  | [] => false
  | b :: r => isNameStart b && r.all fun c => isNameStart c || Text.isDigitByte c

theorem isNameByte_eq (b : UInt8) : isNameByte b = (isNameStart b || Text.isDigitByte b) := by
  rw [isNameByte, isNameStart]
  cases Text.isDigitByte b <;> simp

theorem isIdentifier_of_name {s : Text} (h : Name s) : isIdentifier s = true := by
  obtain ⟨b, r, rfl⟩ := List.exists_cons_of_ne_nil h.solid
  obtain ⟨hfirst, hrest⟩ := List.forall_mem_cons.1 h.bytes
  have hstart := h.starts b rfl
  rw [isNameByte_eq, hstart, Bool.or_false] at hfirst
  rw [isIdentifier, hfirst, Bool.true_and, List.all_eq_true]
  intro c hc
  rw [← isNameByte_eq, hrest c hc]

/-- A letter, a digit or an underscore is written as it is. -/
theorem exists_char_of_isNameByte {b : UInt8} (h : isNameByte b = true) :
    Utf8.isSingle b = true ∧ ∃ c, Utf8.encode c = [b] ∧ ofChar c = Utf8.encode c := by
  have hall : ∀ n < 256, isNameByte (UInt8.ofNat n) = true →
      Utf8.isSingle (UInt8.ofNat n) = true ∧ Utf8.encode (Char.ofNat n) = [UInt8.ofNat n] ∧
        ofChar (Char.ofNat n) = Utf8.encode (Char.ofNat n) := by decide +kernel
  obtain ⟨hsingle, hencode, hchar⟩ := hall b.toNat b.toNat_lt (by rwa [UInt8.ofNat_toNat])
  rw [UInt8.ofNat_toNat] at hsingle hencode
  exact ⟨hsingle, _, hencode, hchar⟩

/-- Letters, digits and underscores together are written as they are. -/
theorem flatMap_ofChar_of_isNameByte {s : Text} (h : ∀ b ∈ s, isNameByte b = true) :
    (Utf8.chars s).flatMap ofChar = s := by
  obtain ⟨cs, rfl, hcs⟩ :=
    Utf8.exists_ofChars fun b hb => (exists_char_of_isNameByte (h b hb)).2
  rw [Utf8.chars_ofChars, Utf8.ofChars, List.flatMap_congr hcs]

/-- An identifier that is no reserved word is spelled as itself. -/
theorem ofBare_of_name {s : Text} (h : Name s) (hfree : s ∉ reserved.map Text.ofString) :
    ofBare s = s := by
  rw [ofBare, flatMap_ofChar_of_isNameByte h.bytes]
  obtain ⟨b, r, rfl⟩ := List.exists_cons_of_ne_nil h.solid
  have hreserved : ¬ reserved.any (Text.ofString · == b :: r) = true := by
    intro hany
    obtain ⟨w, hw, heq⟩ := List.any_eq_true.1 hany
    exact hfree (List.mem_map.2 ⟨w, hw, beq_iff_eq.1 heq⟩)
  rw [identifier, if_neg (by rw [h.starts b rfl]; exact Bool.false_ne_true), if_neg hreserved]

/-- **The Latin spelling is a stable identifier**, however marks are taken away, as long as ASCII
is left alone where that succeeds.  Whatever bytes a name has, its spelling is
`[A-Za-z_][A-Za-z0-9_]*`, it is no reserved word, and it is spelled as itself. -/
theorem rename_stable (strip : Text → Option Text)
    (hascii : ∀ s bare, (∀ b ∈ s, Utf8.isSingle b = true) → strip s = some bare → bare = s)
    (raw : Text) :
    isIdentifier (renameWith strip raw) = true ∧
      renameWith strip raw ∉ reserved.map Text.ofString ∧
      renameWith strip (renameWith strip raw) = renameWith strip raw := by
  have hname : Name (renameWith strip raw) := name_ofBare _
  have hfree : renameWith strip raw ∉ reserved.map Text.ofString := identifier_not_reserved _
  refine ⟨isIdentifier_of_name hname, hfree, ?_⟩
  generalize renameWith strip raw = name at hname hfree
  have hsingle : ∀ b ∈ name, Utf8.isSingle b = true :=
    fun b hb => (exists_char_of_isNameByte (hname.bytes b hb)).1
  have hbare : (strip name).getD name = name := by
    cases hstrip : strip name with
    | none => rfl
    | some bare => exact hascii name bare hsingle hstrip
  rw [renameWith, hbare, ofBare_of_name hname hfree]

theorem rename_stable_withoutMarks :
    rename "مُتغيّر١" = Text.ofString "mtghyr1" ∧ rename "mtghyr1" = Text.ofString "mtghyr1" := by
  have hspelled : rename "مُتغيّر١" = Text.ofString "mtghyr1" := by decide +kernel
  have hstable := (rename_stable (fun s => some (withoutMarks s))
    (fun s bare hs hbare => by rw [← Option.some.inj hbare, withoutMarks_of_ascii hs])
    "مُتغيّر١").2.2
  change rename (rename _) = rename _ at hstable
  rw [hspelled] at hstable
  exact ⟨hspelled, hstable⟩

end Latin
end Tarjuman
