/-
# Lines and columns in words

A content may have `2 ^ 32 - 1` bytes, so its offsets are words.  Lines and columns count from
one, though, and one more than a word may be no word.  What is counted is compared here with
numbers that never wrap: the line of an offset is one more than the line feeds before it
(`lineAt`), and its column one more than the bytes since the last of them (`Source.columnAt`).

* A cursor carries its line as a word at all times (`Cursor.Reached.exists_at`), which is the
  line unless `2 ^ 32 - 1` line feeds were passed (`Cursor.Reached.exists_passed`).
* The place of an offset is its line and its column as words (`SourceFile.place_eq_words`).  Only
  the end of a content of the greatest length can be a line or a column too far
  (`lineAt_lt_iff`, `Source.columnAt_lt_iff`).
* The number of lines and the text of each line are right for every content: in a content of
  line feeds only the bound on line numbers wraps and no line is found, but all of them are empty
  (`SourceFile.line_of_startsLine`).
-/

import Mathlib.Algebra.Group.Nat.Defs
import Mathlib.Data.List.TakeWhile
import Tarjuman.Proofs.FileVersions
import Tarjuman.Proofs.SourceLines

namespace Tarjuman

/-- A word tells the number it was made of exactly if that is below `2 ^ 32`. -/
theorem toNat_ofNat_eq_iff {n : Nat} : (UInt32.ofNat n).toNat = n ↔ n < 2 ^ 32 := by
  rw [UInt32.toNat_ofNat']
  exact Nat.mod_eq_iff_lt (by decide)

/-! ## Lines while a content is read -/

namespace Cursor

/-- The cursors that reading a content comes to from its start on. -/
inductive Reached (file : FileId) (content : Text) : Cursor → Prop where
  | start : Reached file content (.start file content)
  /-- A byte, a character, trivia or a whole lexeme is passed over. -/
  | skip {c : Cursor} (n : Nat) (before : Reached file content c) : Reached file content (c.skip n)
  | fetch {c : Cursor} (before : Reached file content c) : Reached file content c.fetch.cursor

variable {file : FileId} {content : Text} {c : Cursor}

/-- **A cursor stands at an offset of the content at all times.** -/
theorem Reached.exists_at (h : Reached file content c) : ∃ pos, c.At file content pos := by
  induction h with
  | start => exact ⟨0, start_at file content⟩
  | @skip c n before ih =>
    obtain ⟨pos, hat⟩ := ih
    rcases Nat.le_total n c.rest.length with hle | hge
    · exact ⟨pos + n, hat.skip hle⟩
    · -- There are no more bytes to pass over than are left.
      have hall : c.skip n = c.skip c.rest.length := by
        simp only [Cursor.skip, List.take_of_length_le hge, List.drop_eq_nil_of_le hge,
          List.take_length, List.drop_length]
      rw [hall]
      exact ⟨_, hat.skip (Nat.le_refl _)⟩
  | fetch before ih =>
    obtain ⟨pos, hat⟩ := ih
    cases hat.fetch with
    | token after covers behind moved kind solid cursor => exact ⟨_, cursor⟩
    | finish kind covers cursor => exact ⟨_, cursor⟩

/-- **The line of a cursor is one more than the line feeds that were passed**, as long as these
are fewer than `2 ^ 32 - 1`. -/
theorem Reached.exists_passed (h : Reached file content c) (hfits : content.length < 2 ^ 32) :
    ∃ passed, content = passed ++ c.rest ∧
      (c.line.toNat = 1 + passed.count lineFeed ↔
        passed ≠ List.replicate (2 ^ 32 - 1) lineFeed) := by
  obtain ⟨pos, hat⟩ := h.exists_at
  refine ⟨content.take pos, by rw [hat.rest_eq, List.take_append_drop], ?_⟩
  have hlength := List.length_take (i := pos) (l := content)
  have hcount := List.count_le_length (a := lineFeed) (l := content.take pos)
  rw [hat.line_eq, lineAt, toNat_ofNat_eq_iff, ne_eq, List.eq_replicate_iff]
  constructor
  · rintro hlt ⟨hfull, hall⟩
    have hfeeds := List.count_eq_length.2 fun b hb => (hall b hb).symm
    omega
  · intro hnot
    by_contra hge
    have hfeeds : (content.take pos).count lineFeed = (content.take pos).length := by omega
    exact hnot ⟨by omega, fun b hb => (List.count_eq_length.1 hfeeds b hb).symm⟩

end Cursor

/-! ## Places -/

/-- The line of an offset is a word, except at the end of as many line feeds as a content may
hold. -/
theorem lineAt_lt_iff {content : Text} (hfits : content.length < 2 ^ 32) {pos : Nat}
    (hpos : pos ≤ content.length) :
    lineAt content pos < 2 ^ 32 ↔ ¬ (pos = 2 ^ 32 - 1 ∧ ∀ b ∈ content, b = Cursor.lineFeed) := by
  have hmost := lineAt_le content pos
  have hfull := lineAt_eq_succ_iff (by omega : content.length ≤ 2 ^ 32 - 1) pos
  rw [List.eq_replicate_iff] at hfull
  constructor
  · rintro hlt ⟨hend, hall⟩
    have hwrap := hfull.2 ⟨⟨by omega, hall⟩, by omega⟩
    omega
  · intro hnot
    by_contra hge
    obtain ⟨⟨-, hall⟩, hend⟩ := hfull.1 (by omega)
    exact hnot ⟨by omega, hall⟩

namespace Source

/-- The column of an offset: one more than the bytes since the last line feed before it. -/
def columnAt (content : Text) (pos : Nat) : Nat :=
  1 + ((content.take pos).reverse.takeWhile (· != Cursor.lineFeed)).length

/-- **The column is counted from the start of the line.** -/
theorem StartsLine.columnAt_eq {content : Text} {pos s : Nat}
    (h : StartsLine content (lineAt content pos) s) (hle : s ≤ pos)
    (hpos : pos ≤ content.length) : columnAt content pos = pos - s + 1 := by
  obtain ⟨n, rfl⟩ := Nat.exists_eq_add_of_le hle
  -- No line feed stands between the start of the line and the offset.
  have hsame := h.line_eq
  rw [lineAt_add] at hsame
  have hnone : ∀ b ∈ ((content.drop s).take n).reverse, (b != Cursor.lineFeed) = true := by
    intro b hb
    have hcount : ((content.drop s).take n).count Cursor.lineFeed = 0 := by omega
    rw [bne_iff_ne]
    rintro rfl
    exact List.count_eq_zero.1 hcount (List.mem_reverse.1 hb)
  -- What stands before the line is nothing, or ends with a line feed.
  have hstop : (content.take s).reverse.takeWhile (· != Cursor.lineFeed) = [] := by
    rcases h.first with rfl | ⟨p, rfl, hp⟩
    · rw [List.take_zero]
      rfl
    · rw [List.take_add_one, hp, Option.toList_some, List.reverse_concat,
        List.takeWhile_cons_of_neg (by simp)]
  rw [columnAt, List.take_add, List.reverse_append, List.takeWhile_append_of_pos hnone, hstop,
    List.append_nil, List.length_reverse, List.length_take, List.length_drop]
  omega

/-- The column of an offset is a word, except at the end of a line that is as long as a content
may be. -/
theorem columnAt_lt_iff {content : Text} (hfits : content.length < 2 ^ 32) {pos : Nat}
    (hpos : pos ≤ content.length) :
    columnAt content pos < 2 ^ 32 ↔ ¬ (pos = 2 ^ 32 - 1 ∧ Cursor.lineFeed ∉ content) := by
  have hprefix := List.takeWhile_prefix (l := (content.take pos).reverse) (· != Cursor.lineFeed)
  have hle := hprefix.length_le
  rw [List.length_reverse, List.length_take] at hle
  rw [columnAt]
  constructor
  · rintro hlt ⟨hend, hnone⟩
    have hself : content.reverse.takeWhile (· != Cursor.lineFeed) = content.reverse := by
      refine List.takeWhile_eq_self_iff.2 fun b hb => bne_iff_ne.2 ?_
      rintro rfl
      exact hnone (List.mem_reverse.1 hb)
    rw [List.take_of_length_le (by omega), hself, List.length_reverse] at hlt
    omega
  · intro hnot
    by_contra hge
    have hend : pos = 2 ^ 32 - 1 := by omega
    rw [List.take_of_length_le (by omega)] at hprefix hge hle
    have hself := hprefix.eq_of_length (by rw [List.length_reverse]; omega)
    refine hnot ⟨hend, fun hmem => ?_⟩
    simpa using List.takeWhile_eq_self_iff.1 hself _ (List.mem_reverse.2 hmem)

end Source

/-- **The place of an offset is its line and its column as words.** -/
theorem SourceFile.place_eq_words {f : SourceFile} (hindex : f.breaks = Source.breaks f.content)
    (hfits : f.content.length < 2 ^ 32) {off : UInt32} (hoff : off.toNat ≤ f.content.length) :
    f.place off = ⟨UInt32.ofNat (lineAt f.content off.toNat),
      UInt32.ofNat (Source.columnAt f.content off.toNat)⟩ := by
  obtain ⟨s, hle, hstarts, hwords⟩ := Source.exists_lineCol_words hfits off
  rw [hstarts.columnAt_eq hle hoff, ← hwords, ← hindex]
  rfl

/-! ## Files of a file set -/

/-- A content that is short enough is added. -/
theorem FileSet.perform_addVirtual (fs : FileSet) (path : Text) {content : Text}
    (hfits : content.length < 2 ^ 32) (hsize : fs.size < 2 ^ 32) :
    (fs.perform (.addVirtual path content)).1 = .ok (fs.fresh path content .isVirtual) :=
  perform_eq_ok_iff.2 ⟨rfl, hfits, hsize, toNat_fresh_id hsize path content .isVirtual, rfl, rfl⟩

/-- **Lines and columns are exact, except at the end of two kinds of contents.**  In a file that
a file set has taken in, of any length up to `2 ^ 32 - 1` bytes:

* while the content is read, the line is one more than the line feeds that were passed, unless
  these are `2 ^ 32 - 1` and nothing else was passed;
* the number of lines is right, and so is the text of every line: they are the pieces between
  line feeds, without an empty piece at the end;
* the line of an offset from 0 to the end is one more than the line feeds before it, unless it is
  the end of `2 ^ 32 - 1` line feeds, and its column is one more than the bytes since the last
  of them, unless it is the end of `2 ^ 32 - 1` bytes with no line feed. -/
theorem lines_and_columns_exact_iff {fs : FileSet} {call : FileSet.Call} {f : SourceFile}
    (hadd : (fs.perform call).1 = .ok f) :
    (∀ c, Cursor.Reached f.id f.content c → ∃ passed, f.content = passed ++ c.rest ∧
      (c.line.toNat = 1 + passed.count Cursor.lineFeed ↔
        passed ≠ List.replicate (2 ^ 32 - 1) Cursor.lineFeed)) ∧
    Text.splitOn Cursor.lineFeed f.content = f.lines ++
      (if f.content = [] ∨ f.content.getLast? = some Cursor.lineFeed then [[]] else []) ∧
    ∀ off : UInt32, off.toNat ≤ f.content.length →
      ((f.place off).line.toNat = lineAt f.content off.toNat ↔
        ¬ (off.toNat = 2 ^ 32 - 1 ∧ ∀ b ∈ f.content, b = Cursor.lineFeed)) ∧
      ((f.place off).col.toNat = Source.columnAt f.content off.toNat ↔
        ¬ (off.toNat = 2 ^ 32 - 1 ∧ Cursor.lineFeed ∉ f.content)) := by
  obtain ⟨-, hfits, -, -, -, hindex⟩ := FileSet.perform_eq_ok_iff.1 hadd
  refine ⟨fun c hc => hc.exists_passed hfits, SourceFile.splitOn_eq_lines hindex hfits,
    fun off hoff => ?_⟩
  rw [SourceFile.place_eq_words hindex hfits hoff, toNat_ofNat_eq_iff, toNat_ofNat_eq_iff]
  exact ⟨lineAt_lt_iff hfits hoff, Source.columnAt_lt_iff hfits hoff⟩

/-- The end of a content of the greatest length whose last byte is a line feed and all others are
letters has its line and its column. -/
theorem lines_and_columns_exact_iff_feed_last :
    ∃ f, (({} : FileSet).perform
        (.addVirtual "a" (List.replicate (2 ^ 32 - 2) 0x61 ++ [Cursor.lineFeed]))).1 = .ok f ∧
      f.content.length = 2 ^ 32 - 1 ∧
      (f.place 0xFFFFFFFF).line.toNat = lineAt f.content (2 ^ 32 - 1) ∧
      (f.place 0xFFFFFFFF).col.toNat = Source.columnAt f.content (2 ^ 32 - 1) := by
  have hlength : (List.replicate (2 ^ 32 - 2) (0x61 : UInt8) ++ [Cursor.lineFeed]).length =
      2 ^ 32 - 1 := by
    rw [List.length_append, List.length_replicate]
    rfl
  have hletter : (0x61 : UInt8) ∈ List.replicate (2 ^ 32 - 2) (0x61 : UInt8) :=
    List.mem_replicate.2 ⟨by decide, rfl⟩
  generalize List.replicate (2 ^ 32 - 2) (0x61 : UInt8) = letters at hlength hletter
  have hadd := FileSet.perform_addVirtual {} "a"
    (by omega : (letters ++ [Cursor.lineFeed]).length < 2 ^ 32) (by decide)
  obtain ⟨hline, hcol⟩ :=
    (lines_and_columns_exact_iff hadd).2.2 0xFFFFFFFF (Nat.le_of_eq hlength.symm)
  refine ⟨_, hadd, hlength, hline.2 ?_, hcol.2 ?_⟩
  · rintro ⟨-, hall⟩
    exact absurd (hall 0x61 (List.mem_append_left _ hletter)) (by decide)
  · rintro ⟨-, hnone⟩
    exact hnone (List.mem_append_right _ (List.mem_singleton_self _))

/-- **The last column and the last line wrap.**  The end of `2 ^ 32 - 1` letters lies in column
`2 ^ 32`, and is given column 0: with an empty index nothing but the offset counts.  The end of as
many line feeds lies on line `2 ^ 32`, and is given line 0, both as a place and by the cursor that
has passed them. -/
theorem last_column_and_line_wrap :
    (∃ f, (({} : FileSet).perform (.addVirtual "a" (List.replicate (2 ^ 32 - 1) 0x61))).1 = .ok f ∧
      f.breaks = [] ∧ f.place 0xFFFFFFFF = ⟨1, 0⟩ ∧
      Source.columnAt f.content (2 ^ 32 - 1) = 2 ^ 32) ∧
    ∃ f, (({} : FileSet).perform
        (.addVirtual "a" (List.replicate (2 ^ 32 - 1) Cursor.lineFeed))).1 = .ok f ∧
      (f.place 0xFFFFFFFF).line = 0 ∧ lineAt f.content (2 ^ 32 - 1) = 2 ^ 32 ∧
      ((Cursor.start f.id f.content).skip (2 ^ 32 - 1)).line = 0 := by
  constructor
  · have hlength := List.length_replicate (n := 2 ^ 32 - 1) (a := (0x61 : UInt8))
    have hnone : Cursor.lineFeed ∉ List.replicate (2 ^ 32 - 1) (0x61 : UInt8) := fun hmem =>
      absurd (List.eq_of_mem_replicate hmem) (by decide)
    generalize List.replicate (2 ^ 32 - 1) (0x61 : UInt8) = letters at hlength hnone ⊢
    have hfits : letters.length < 2 ^ 32 := by omega
    have hin : (0xFFFFFFFF : UInt32).toNat ≤ letters.length := Nat.le_of_eq hlength.symm
    have hline : lineAt letters (2 ^ 32 - 1) = 1 := by
      rw [lineAt, List.count_eq_zero.2 fun hmem => hnone (List.mem_of_mem_take hmem)]
    have hcol : Source.columnAt letters (2 ^ 32 - 1) = 2 ^ 32 :=
      (hline.symm ▸ Source.startsLine_zero letters).columnAt_eq (Nat.zero_le _) hin
    refine ⟨_, FileSet.perform_addVirtual {} "a" hfits (by decide), ?_, ?_, hcol⟩
    · refine List.eq_nil_of_length_eq_zero ?_
      show (Source.breaks letters).length = 0
      rw [Source.length_breaks, List.count_eq_zero.2 hnone]
    · rw [SourceFile.place_eq_words rfl hfits hin]
      show (⟨UInt32.ofNat (lineAt letters (2 ^ 32 - 1)),
        UInt32.ofNat (Source.columnAt letters (2 ^ 32 - 1))⟩ : LineCol) = _
      rw [hline, hcol]
      rfl
  · have hlength := List.length_replicate (n := 2 ^ 32 - 1) (a := Cursor.lineFeed)
    have hline := (lineAt_eq_succ_iff (Nat.le_of_eq hlength) (2 ^ 32 - 1)).2 ⟨rfl, Nat.le_refl _⟩
    rw [Nat.sub_add_cancel (by decide)] at hline
    generalize List.replicate (2 ^ 32 - 1) Cursor.lineFeed = feeds at hlength hline ⊢
    have hfits : feeds.length < 2 ^ 32 := by omega
    have hin : (0xFFFFFFFF : UInt32).toNat ≤ feeds.length := Nat.le_of_eq hlength.symm
    have hword : UInt32.ofNat (lineAt feeds (2 ^ 32 - 1)) = 0 := by
      rw [hline]
      rfl
    refine ⟨_, FileSet.perform_addVirtual {} "a" hfits (by decide), ?_, hline, ?_⟩
    · rw [SourceFile.place_eq_words rfl hfits hin]
      exact hword
    · have hskip := ((Cursor.start_at 0 feeds).skip (Nat.le_of_eq hlength.symm)).line_eq
      rw [Nat.zero_add] at hskip
      exact hskip.trans hword

end Tarjuman
