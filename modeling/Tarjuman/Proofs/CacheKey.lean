/-
# What a key says about a result

The key of a result is a digest of the digest of the content and of the fingerprint of
the options.  A fingerprint tells apart the options that change a result, and renamers of
different kinds (`BuildOptions.agree_of_fingerprint_eq`): whatever the name of the kind is, the
fields behind it are read from the end.  So, as far as digests do not collide on the texts at
hand, equal keys mean equal contents and equal options but for the separator, the report on
timings and renamers of one kind (`BuildOptions.eq_of_cacheKey_eq`).
-/

import Tarjuman.Build.Options

namespace Tarjuman

namespace Text

/-- A digit that is read is the digit that was written. -/
theorem toNat_digit {n : Nat} (h : n < 10) : (digit n).toNat - 0x30 = n := by
  revert h
  revert n
  decide

/-- Reading the decimal numeral of a number in front of other digits. -/
theorem foldl_digitsOnto (n : Nat) (acc : Text) :
    (digitsOnto 10 digit n acc).foldl (fun n b => 10 * n + (b.toNat - 0x30)) 0 =
      acc.foldl (fun n b => 10 * n + (b.toNat - 0x30)) n := by
  fun_induction digitsOnto 10 digit n acc with
  | case1 n acc h ih =>
    rw [ih, List.foldl_cons, toNat_digit (Nat.mod_lt n (by decide)), Nat.div_add_mod]
  | case2 n acc h =>
    rw [List.foldl_cons, toNat_digit (by omega), Nat.mul_zero, Nat.zero_add]

/-- Different numbers have different numerals. -/
theorem ofNat_injective {m n : Nat} (h : ofNat m = ofNat n) : m = n := by
  have hm := foldl_digitsOnto m []
  rw [show digitsOnto 10 digit m [] = digitsOnto 10 digit n [] from h, foldl_digitsOnto] at hm
  exact hm.symm

/-- A numeral has digits only. -/
theorem not_mem_digitsOnto {b : UInt8} (hb : ∀ n < 10, digit n ≠ b) (n : Nat) {acc : Text}
    (hacc : b ∉ acc) : b ∉ digitsOnto 10 digit n acc := by
  fun_induction digitsOnto 10 digit n acc with
  | case1 n acc h ih =>
    exact ih (List.not_mem_cons_of_ne_of_not_mem (hb _ (Nat.mod_lt n (by decide))).symm hacc)
  | case2 n acc h => exact List.not_mem_cons_of_ne_of_not_mem (hb n (by omega)).symm hacc

theorem minus_not_mem_ofNat (n : Nat) : byte '-' ∉ ofNat n :=
  not_mem_digitsOnto (by decide) n List.not_mem_nil

theorem equals_not_mem_ofInt (n : Int) : byte '=' ∉ ofInt n := by
  have hnat (n : Nat) : byte '=' ∉ ofNat n := not_mem_digitsOnto (by decide) n List.not_mem_nil
  cases n with
  | ofNat n => exact hnat n
  | negSucc n => exact List.not_mem_cons_of_ne_of_not_mem (by decide) (hnat (n + 1))

theorem ofInt_injective {m n : Int} (h : ofInt m = ofInt n) : m = n := by
  cases m with
  | ofNat m =>
    cases n with
    | ofNat n => exact congrArg Int.ofNat (ofNat_injective h)
    | negSucc n =>
      have h : ofNat m = byte '-' :: ofNat (n + 1) := h
      exact absurd (h ▸ List.mem_cons_self) (minus_not_mem_ofNat m)
  | negSucc m =>
    cases n with
    | ofNat n =>
      have h : byte '-' :: ofNat (m + 1) = ofNat n := h
      exact absurd (h ▸ List.mem_cons_self) (minus_not_mem_ofNat n)
    | negSucc n =>
      have hsucc := ofNat_injective (List.tail_eq_of_cons_eq h)
      exact congrArg Int.negSucc (Nat.succ.inj hsucc)

/-- A text is cut in one way only at the last place where a byte stands. -/
theorem append_cons_inj {b : UInt8} {s t u v : Text} (hu : b ∉ u) (hv : b ∉ v)
    (h : s ++ b :: u = t ++ b :: v) : s = t ∧ u = v := by
  rcases List.append_eq_append_iff.1 h with ⟨r, rfl, hr⟩ | ⟨r, rfl, hr⟩ <;> cases r with
  | nil => exact ⟨by simp, by simpa [eq_comm] using hr⟩
  | cons c r =>
    obtain ⟨rfl, rfl⟩ := List.cons.inj hr
    simp at hu hv

/-- The hexadecimal digits of some bytes are read back as the bytes. -/
theorem bytesOfHex?_hexOfBytes (s : Text) : bytesOfHex? (hexOfBytes s) = some s := by
  have hdigit : ∀ n < 16, hexDigit? (digit n) = some n := by decide
  induction s with
  | nil => rfl
  | cons b r ih =>
    have hb : b.toNat < 256 := b.toNat_lt
    have hbyte : (16 * (b.toNat / 16) + b.toNat % 16).toUInt8 = b := by
      rw [Nat.div_add_mod]
      exact UInt8.ofNat_toNat
    rw [hexOfBytes, List.flatMap_cons, ← hexOfBytes]
    show bytesOfHex? (digit (b.toNat / 16) :: digit (b.toNat % 16) :: hexOfBytes r) = _
    rw [bytesOfHex?, hdigit _ (by omega), hdigit _ (by omega), ih]
    exact congrArg (fun b => some (b :: r)) hbyte

theorem hexOfBytes_injective {s t : Text} (h : hexOfBytes s = hexOfBytes t) : s = t := by
  have hs := bytesOfHex?_hexOfBytes s
  rw [h, bytesOfHex?_hexOfBytes] at hs
  exact (Option.some.inj hs).symm

end Text

namespace Digest

/-- A digest has eight words. -/
def IsFull (d : Digest) : Prop := d.bytes.length = 32

theorem isFull_ofText (s : Text) : (ofText s).IsFull := by
  rw [ofText]
  generalize absorb _ _ _ = v
  rfl

theorem hex_injective {d e : Digest} (h : d.hex = e.hex) : d = e := by
  cases d
  cases e
  exact congrArg Digest.mk (Text.hexOfBytes_injective h)

/-- No two of the texts have the same digest. -/
def CollisionFree (ts : List Text) : Prop :=
  ∀ s ∈ ts, ∀ t ∈ ts, ofText s = ofText t → s = t

instance (ts : List Text) : Decidable (CollisionFree ts) :=
  inferInstanceAs (Decidable (∀ s ∈ ts, ∀ t ∈ ts, ofText s = ofText t → s = t))

end Digest

namespace BuildOptions

theorem truth_injective {a b : Bool} (h : truth a = truth b) : a = b := by
  cases a <;> cases b <;> first | rfl | exact absurd h (by decide)

theorem equals_not_mem_truth (b : Bool) {s : Text} (hs : Text.byte '=' ∉ s) :
    Text.byte '=' ∉ truth b ++ s := by
  cases b <;> exact List.not_mem_append (by decide) hs

/-- The options agree in all that a fingerprint shows. -/
structure Agree (o o' : BuildOptions) : Prop where
  kind : o.kind = o'.kind
  banner : o.banner = o'.banner
  prelude : o.prelude = o'.prelude
  strict : o.strict = o'.strict
  maxDiagnostics : o.maxDiagnostics = o'.maxDiagnostics

/-- Among the options the kind of a renamer decides how it spells names. -/
def KindsDecide (os : List BuildOptions) : Prop :=
  ∀ o ∈ os, ∀ o' ∈ os, o.kind = o'.kind → o.rename = o'.rename

theorem KindsDecide.mono {os os' : List BuildOptions} (h : KindsDecide os) (hsub : os' ⊆ os) :
    KindsDecide os' :=
  fun o ho o' ho' => h o (hsub ho) o' (hsub ho')

theorem kindsDecide_of_naming_eq {os : List BuildOptions} (naming : Option Renamer)
    (h : ∀ o ∈ os, o.naming = naming) : KindsDecide os := by
  intro o ho o' ho' _
  rw [rename, rename, h o ho, h o' ho']

/-- **A fingerprint tells apart** the options that change a result, but for renamers of one
kind. -/
theorem agree_of_fingerprint_eq {o o' : BuildOptions} (h : o.fingerprint = o'.fingerprint) :
    o.Agree o' := by
  -- the name of a kind may hold anything, so the fields are cut off from the end
  have hform (o : BuildOptions) : o.fingerprint =
      "v" ++ Text.ofNat schema.toNat ++ ";renamer=" ++ o.kind ++ ";banner" ++
        Text.byte '=' :: (truth o.banner ++ ";prelude") ++
          Text.byte '=' :: (truth o.prelude ++ ";strict") ++
            Text.byte '=' :: (truth o.strict ++ ";max") ++
              Text.byte '=' :: Text.ofInt o.maxDiagnostics := by
    simp only [fingerprint, List.append_assoc, List.cons_append]
    rfl
  rw [hform o, hform o'] at h
  obtain ⟨h, hmax⟩ := Text.append_cons_inj (Text.equals_not_mem_ofInt _)
    (Text.equals_not_mem_ofInt _) h
  obtain ⟨h, hstrict⟩ := Text.append_cons_inj (equals_not_mem_truth _ (by decide))
    (equals_not_mem_truth _ (by decide)) h
  obtain ⟨h, hprelude⟩ := Text.append_cons_inj (equals_not_mem_truth _ (by decide))
    (equals_not_mem_truth _ (by decide)) h
  obtain ⟨h, hbanner⟩ := Text.append_cons_inj (equals_not_mem_truth _ (by decide))
    (equals_not_mem_truth _ (by decide)) h
  exact ⟨List.append_cancel_left (List.append_cancel_right h),
    truth_injective (List.append_cancel_right hbanner),
    truth_injective (List.append_cancel_right hprelude),
    truth_injective (List.append_cancel_right hstrict), Text.ofInt_injective hmax⟩

/-- The texts whose digests make the key of a result. -/
def hashed (o : BuildOptions) (content : Text) : List Text :=
  [content, (Digest.ofText content).bytes ++ o.fingerprint]

/-- **Equal keys mean equal contents and options that agree**, as far as digests do not
collide. -/
theorem eq_of_cacheKey_eq {ts : List Text} (hfree : Digest.CollisionFree ts)
    {o o' : BuildOptions} {content content' : Text} (hts : ∀ t ∈ o.hashed content, t ∈ ts)
    (hts' : ∀ t ∈ o'.hashed content', t ∈ ts)
    (h : o.cacheKey content = o'.cacheKey content') : content = content' ∧ o.Agree o' := by
  obtain ⟨hcontent, hkey, -⟩ := List.forall_mem_cons.1 hts |>.imp_right List.forall_mem_cons.1
  obtain ⟨hcontent', hkey', -⟩ := List.forall_mem_cons.1 hts' |>.imp_right List.forall_mem_cons.1
  have hboth := hfree _ hkey _ hkey' h
  obtain ⟨hbytes, hprint⟩ := List.append_inj hboth
    ((Digest.isFull_ofText content).trans (Digest.isFull_ofText content').symm)
  have hdigest : Digest.ofText content = Digest.ofText content' := congrArg Digest.mk hbytes
  exact ⟨hfree _ hcontent _ hcontent' hdigest, agree_of_fingerprint_eq hprint⟩

end BuildOptions
end Tarjuman
