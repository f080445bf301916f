/-
# Latin names are names

Whatever bytes a name of the source has, its Latin spelling is a name of the script
(`Latin.name_rename`): letters, digits and underscores, no digit in front, and none of the
words that stand for a value.  Every character is spelled with such bytes
(`Latin.isNameByte_of_mem_ofChar`), and the last step puts an underscore where the spelling is
empty, starts with a digit or is a reserved word.
-/

import Tarjuman.Proofs.Characters
import Tarjuman.Script.Latin

namespace Tarjuman
namespace Latin

/-- A letter, a digit or an underscore. -/
def isNameByte (b : UInt8) : Bool :=
  Text.isDigitByte b || (0x41 ≤ b && b ≤ 0x5A) || (0x61 ≤ b && b ≤ 0x7A) || b == 0x5F

/-- The words that stand for a value. -/
def valueWords : List Text := ["true", "false", "null"]

/-- A name of the script. -/
structure Name (s : Text) : Prop where
  solid : s ≠ []
  bytes : ∀ b ∈ s, isNameByte b = true
  starts : ∀ b ∈ s.head?, Text.isDigitByte b = false
  /-- It does not stand for a value. -/
  free : s ∉ valueWords

/-! ## Characters -/

theorem isNameByte_digit : ∀ d < 10, isNameByte (Text.digit d) = true := by decide

theorem isNameByte_of_mem_digitsOnto (n : Nat) {acc : Text}
    (hacc : ∀ b ∈ acc, isNameByte b = true) :
    ∀ b ∈ Text.digitsOnto 16 Text.digitUpper n acc, isNameByte b = true := by
  have hdigit : ∀ d < 16, isNameByte (Text.digitUpper d) = true := by decide
  fun_induction Text.digitsOnto 16 Text.digitUpper n acc with
  | case1 n acc _ ih =>
    exact ih (List.forall_mem_cons.2 ⟨hdigit _ (Nat.mod_lt n (by decide)), hacc⟩)
  | case2 n acc hn => exact List.forall_mem_cons.2 ⟨hdigit n (by omega), hacc⟩

theorem isNameByte_of_mem_hexUpperPadded (w n : Nat) :
    ∀ b ∈ Text.hexUpperPadded w n, isNameByte b = true := by
  rw [Text.hexUpperPadded]
  refine List.forall_mem_append.2 ⟨fun b hb => ?_, isNameByte_of_mem_digitsOnto n ?_⟩
  · rw [List.eq_of_mem_replicate hb]
    decide
  · exact List.forall_mem_nil _

theorem arabicDigit?_lt {c : Char} {d : Nat} (h : arabicDigit? c = some d) : d < 10 := by
  rw [arabicDigit?] at h
  split at h
  · obtain rfl := Option.some.inj h
    omega
  · split at h
    · obtain rfl := Option.some.inj h
      omega
    · cases h

theorem toNat_of_isAlphanum {c : Char} (h : c = '_' ∨ c.isAlphanum = true) :
    (0x30 ≤ c.toNat ∧ c.toNat ≤ 0x39) ∨ (0x41 ≤ c.toNat ∧ c.toNat ≤ 0x5A) ∨
      (0x61 ≤ c.toNat ∧ c.toNat ≤ 0x7A) ∨ c.toNat = 0x5F := by
  rcases h with rfl | h
  · decide
  · change ((decide (c.val ≥ 65 ∧ c.val ≤ 90) ||
      (decide (c.val ≥ 97) && decide (c.val ≤ 122))) ||
      (decide (c.val ≥ 48) && decide (c.val ≤ 57))) = true at h
    simp only [Bool.or_eq_true, Bool.and_eq_true, decide_eq_true_eq, ge_iff_le,
      UInt32.le_iff_toNat_le] at h
    change ((65 ≤ c.toNat ∧ c.toNat ≤ 90) ∨ (97 ≤ c.toNat ∧ c.toNat ≤ 122)) ∨
      (48 ≤ c.toNat ∧ c.toNat ≤ 57) at h
    omega

/-- Letters, digits and the underscore are spelled as they are. -/
theorem isNameByte_of_mem_encode {c : Char} (h : c = '_' ∨ c.isAlphanum = true) :
    ∀ b ∈ Utf8.encode c, isNameByte b = true := by
  have hrange := toNat_of_isAlphanum h
  have hencode : Utf8.encode c = [UInt8.ofNat c.toNat] := Utf8.encode_of_lt (by omega)
  have hbyte : (UInt8.ofNat c.toNat).toNat = c.toNat :=
    UInt8.toNat_ofNat_of_lt' (by rw [show UInt8.size = 256 from rfl]; omega)
  rw [hencode]
  refine List.forall_mem_singleton.2 ?_
  simp only [isNameByte, Text.isDigitByte, Bool.or_eq_true, Bool.and_eq_true, decide_eq_true_eq,
    beq_iff_eq, UInt8.le_iff_toNat_le, ← UInt8.toNat_inj, hbyte, or_assoc]
  exact hrange

/-- **Every character is spelled with bytes of names.** -/
theorem isNameByte_of_mem_ofChar (c : Char) : ∀ b ∈ ofChar c, isNameByte b = true := by
  have hletters : letters.all (fun p => (Text.ofString p.2).all isNameByte) = true := by decide
  rw [ofChar]
  split
  · rename_i hplain
    exact isNameByte_of_mem_encode hplain
  · split
    · rename_i d hd
      exact List.forall_mem_singleton.2 (isNameByte_digit d (arabicDigit?_lt hd))
    · split
      · exact List.forall_mem_nil _
      · split
        · rename_i l hl
          obtain ⟨before, behind, heq, -⟩ := List.lookup_eq_some_iff.1 hl
          have hmem : (c, l) ∈ letters := by
            rw [heq]
            exact List.mem_append_right _ List.mem_cons_self
          exact List.all_eq_true.1 (List.all_eq_true.1 hletters _ hmem)
        · refine List.forall_mem_append.2 ⟨?_, isNameByte_of_mem_hexUpperPadded 4 c.toNat⟩
          exact List.all_eq_true.1 (by decide)

/-! ## Names -/

/-- **A reserved word is never the outcome**: the words neither start nor end with the
underscore that is added. -/
theorem identifier_not_reserved (s : Text) : identifier s ∉ reserved.map Text.ofString := by
  have hends : ∀ w ∈ reserved.map Text.ofString,
      w ≠ Text.ofString "_" ∧ w.head? ≠ some 0x5F ∧ w.getLast? ≠ some 0x5F := by decide
  intro hmem
  obtain ⟨hlone, hhead, hlast⟩ := hends _ hmem
  cases s with
  | nil => exact hlone rfl
  | cons b r =>
    rw [identifier] at hhead hlast hmem
    split at hhead
    · exact hhead rfl
    · rename_i hdigit
      rw [if_neg hdigit] at hlast hmem
      split at hlast
      · exact hlast List.getLast?_concat
      · rename_i hfree
        rw [if_neg hfree] at hmem
        obtain ⟨w, hw, heq⟩ := List.mem_map.1 hmem
        exact hfree (List.any_eq_true.2 ⟨w, hw, beq_iff_eq.2 heq⟩)

/-- **What is made of such bytes becomes a name.** -/
theorem name_identifier {s : Text} (hs : ∀ b ∈ s, isNameByte b = true) : Name (identifier s) := by
  have hunderscore : ∀ b ∈ Text.ofString "_", isNameByte b = true :=
    List.all_eq_true.1 (by decide)
  have hwords : ∀ w ∈ valueWords, w ∈ reserved.map Text.ofString := by decide
  have hfree : identifier s ∉ valueWords := fun h => identifier_not_reserved s (hwords _ h)
  cases s with
  | nil =>
    refine ⟨by decide, hunderscore, fun c hc => ?_, hfree⟩
    obtain rfl : 0x5F = c := Option.some.inj hc
    rfl
  | cons b r =>
    rw [identifier] at hfree ⊢
    split at hfree
    · rename_i hdigit
      rw [if_pos hdigit]
      refine ⟨by simp, List.forall_mem_append.2 ⟨hunderscore, hs⟩, fun c hc => ?_, hfree⟩
      obtain rfl : 0x5F = c := Option.some.inj hc
      rfl
    · rename_i hdigit
      have hstarts : ∀ c ∈ some b, Text.isDigitByte c = false := by simpa using hdigit
      rw [if_neg hdigit]
      split at hfree
      · rename_i hreserved
        rw [if_pos hreserved]
        exact ⟨by simp, List.forall_mem_append.2 ⟨hs, hunderscore⟩, hstarts, hfree⟩
      · rename_i hreserved
        rw [if_neg hreserved]
        exact ⟨by simp, hs, hstarts, hfree⟩

theorem name_ofBare (bare : Text) : Name (ofBare bare) :=
  name_identifier (List.forall_mem_flatMap.2 fun c _ => isNameByte_of_mem_ofChar c)

/-- **The Latin spelling of a name is a name**, whatever bytes it has. -/
theorem name_rename (raw : Text) : Name (rename raw) := by
  rw [rename, renameWith]
  exact name_ofBare _

end Latin
end Tarjuman
