/-
# The line index

A file keeps the offsets of its line feeds, and the place of an offset is looked up
among them by halving.  What is looked up is here compared with the content itself,
where the line of an offset is one more than the line feeds before it (`lineAt`) and a
line starts at the offset 0 or right behind a line feed (`Source.StartsLine`).

* Entry number `k` of the index is the offset of a line feed with `k` others before it
  (`Source.getElem?_breaks`), so the entries below an offset are as many as the line
  feeds before it, and the search finds that number (`Source.breaksBefore_breaks`).
* The place of an offset is then its line and its distance from the start of the line, both
  as words (`Source.exists_lineCol_words`) and, where the content is short enough, as numbers
  (`Source.exists_lineCol_breaks`).

Reading tokens counts lines on its own, byte by byte.  Both counts agree on every token
of every file that is short enough for words (`FileSet.Made.token_line_eq_resolved`).
-/

import Mathlib.Algebra.Order.Ring.Nat
import Mathlib.Data.List.GetD
import Tarjuman.Proofs.TokenStream
import Tarjuman.Source.File

namespace Tarjuman

/-! ## Lines of a content -/

theorem lineAt_pos (content : Text) (pos : Nat) : 1 ≤ lineAt content pos := by
  rw [lineAt]
  exact Nat.le_add_right _ _

/-- A line feed ends its line. -/
theorem lineAt_succ {content : Text} {pos : Nat} (h : content[pos]? = some Cursor.lineFeed) :
    lineAt content (pos + 1) = lineAt content pos + 1 := by
  obtain ⟨hlt, hget⟩ := List.getElem?_eq_some_iff.1 h
  have hdrop : (content.drop pos).take 1 = [Cursor.lineFeed] := by
    rw [List.drop_eq_getElem_cons hlt, hget]
    rfl
  rw [lineAt_add, hdrop, List.count_singleton_self]

/-- **The greatest line** that a content of at most `k` bytes can have is number `k + 1`, and
it has that line only behind `k` line feeds and nothing else. -/
theorem lineAt_eq_succ_iff {content : Text} {k : Nat} (hle : content.length ≤ k) (pos : Nat) :
    lineAt content pos = k + 1 ↔ content = List.replicate k Cursor.lineFeed ∧ k ≤ pos := by
  have hcount := List.count_le_length (a := Cursor.lineFeed) (l := content.take pos)
  have htake := List.length_take (i := pos) (l := content)
  rw [lineAt]
  constructor
  · intro hlast
    have hpos : k ≤ pos := by omega
    have hall : content.take pos = content := List.take_of_length_le (by omega)
    rw [hall] at hcount hlast
    have hfull : content.count Cursor.lineFeed = content.length := by omega
    refine ⟨List.eq_replicate_iff.2 ⟨by omega, fun b hb => ?_⟩, hpos⟩
    exact (List.count_eq_length.1 hfull b hb).symm
  · rintro ⟨rfl, hpos⟩
    rw [List.take_of_length_le (by rwa [List.length_replicate]), List.count_replicate_self,
      Nat.add_comm]

namespace Source

/-- Line number `n` of a content, counted from one, starts at the offset `s`. -/
structure StartsLine (content : Text) (n s : Nat) : Prop where
  first : s = 0 ∨ ∃ p, s = p + 1 ∧ content[p]? = some Cursor.lineFeed
  line_eq : lineAt content s = n

namespace StartsLine

variable {content : Text} {n s : Nat}

theorem inside (h : StartsLine content n s) : s ≤ content.length := by
  rcases h.first with rfl | ⟨p, rfl, hp⟩
  · exact Nat.zero_le _
  · exact (List.getElem?_eq_some_iff.1 hp).1

/-- What lies before the start of a line is on a line before it. -/
theorem lineAt_lt (h : StartsLine content n s) {p : Nat} (hp : p < s) :
    lineAt content p < n := by
  rcases h.first with rfl | ⟨q, rfl, hq⟩
  · omega
  · have hmono := lineAt_mono content (Nat.le_of_lt_succ hp)
    rw [← h.line_eq, lineAt_succ hq]
    omega

/-- **A line starts at one offset only.** -/
theorem unique {s' : Nat} (h : StartsLine content n s) (h' : StartsLine content n s') :
    s = s' := by
  rcases Nat.lt_trichotomy s s' with hlt | rfl | hlt
  · exact absurd h.line_eq (Nat.ne_of_lt (h'.lineAt_lt hlt))
  · rfl
  · exact absurd h'.line_eq (Nat.ne_of_lt (h.lineAt_lt hlt))

end StartsLine

theorem startsLine_zero (content : Text) : StartsLine content 1 0 :=
  ⟨.inl rfl, by rw [lineAt, List.take_zero, List.count_nil]⟩

/-! ## What the index holds -/

/-- Entry number `k` for a text whose first byte has the offset `off`. -/
theorem getElem?_breaksFrom (s : Text) (off k : Nat) (b : UInt32) :
    (breaksFrom (UInt32.ofNat off) s)[k]? = some b ↔
      ∃ p, s[p]? = some Cursor.lineFeed ∧ (s.take p).count Cursor.lineFeed = k ∧
        b = UInt32.ofNat (off + p) := by
  induction s generalizing off k with
  | nil => simp [breaksFrom]
  | cons a r ih =>
    have hoff : UInt32.ofNat off + 1 = UInt32.ofNat (off + 1) := (UInt32.ofNat_add off 1).symm
    -- The offsets behind the first byte are those of the rest, one further on.
    have hshift : (∃ p, (a :: r)[p]? = some Cursor.lineFeed ∧
        ((a :: r).take p).count Cursor.lineFeed = k ∧ b = UInt32.ofNat (off + p)) ↔
        (a = Cursor.lineFeed ∧ k = 0 ∧ b = UInt32.ofNat off) ∨
          ∃ p, r[p]? = some Cursor.lineFeed ∧
            (if a = Cursor.lineFeed then 1 else 0) + (r.take p).count Cursor.lineFeed = k ∧
            b = UInt32.ofNat (off + 1 + p) := by
      constructor
      · rintro ⟨p, hp, hk, hb⟩
        cases p with
        | zero => exact .inl ⟨by simpa using hp, by simpa using hk.symm, hb⟩
        | succ p =>
          refine .inr ⟨p, by simpa using hp, ?_, by rw [hb, Nat.add_right_comm, Nat.add_assoc]⟩
          rw [← hk, List.take_succ_cons, List.count_cons, Nat.add_comm]
          simp
      · rintro (⟨rfl, rfl, rfl⟩ | ⟨p, hp, hk, hb⟩)
        · exact ⟨0, by simp, by simp, rfl⟩
        · refine ⟨p + 1, by simpa using hp, ?_, by rw [hb, Nat.add_right_comm, Nat.add_assoc]⟩
          rw [← hk, List.take_succ_cons, List.count_cons, Nat.add_comm]
          simp
    rw [hshift, breaksFrom, hoff]
    by_cases ha : a = Cursor.lineFeed
    · rw [if_pos (show a = 0x0A from ha)]
      cases k with
      | zero => simp [ha, eq_comm]
      | succ k =>
        rw [List.getElem?_cons_succ, ih]
        simp [ha, Nat.add_comm 1]
    · rw [if_neg (show ¬ a = 0x0A from ha), ih]
      simp [ha]

/-- **Entry number `k` is the offset of a line feed with `k` others before it.** -/
theorem getElem?_breaks (content : Text) (k : Nat) (b : UInt32) :
    (breaks content)[k]? = some b ↔
      ∃ p, content[p]? = some Cursor.lineFeed ∧ lineAt content p = k + 1 ∧ b = UInt32.ofNat p := by
  have h := getElem?_breaksFrom content 0 k b
  simp only [Nat.zero_add] at h
  rw [breaks, show (0 : UInt32) = UInt32.ofNat 0 from rfl, h]
  simp only [lineAt, Nat.add_comm 1, Nat.add_right_cancel_iff]

theorem length_breaks (content : Text) :
    (breaks content).length = content.count Cursor.lineFeed := by
  have hfrom : ∀ (off : UInt32) (s : Text),
      (breaksFrom off s).length = s.count Cursor.lineFeed := by
    intro off s
    induction s generalizing off with
    | nil => rfl
    | cons a r ih =>
      rw [breaksFrom]
      by_cases ha : a = Cursor.lineFeed
      · rw [if_pos (show a = 0x0A from ha), ha, List.count_cons_self, List.length_cons, ih]
      · rw [if_neg (show ¬ a = 0x0A from ha), List.count_cons_of_ne ha, ih]
  exact hfrom 0 content

/-! ## Looking up an offset -/

/-- **The search finds the number it looks for**: where the entries below `off` are the first
`m`, it ends with `m`. -/
theorem breaksBefore_eq {index : List UInt32} {off : UInt32} {m : Nat}
    (hm : ∀ k < index.length, index.getD k 0 < off ↔ k < m) {lo hi : Nat} (hlo : lo ≤ m)
    (hhi : m ≤ hi) (hin : hi ≤ index.length) : breaksBefore index off lo hi = m := by
  fun_induction breaksBefore index off lo hi with
  | case1 lo hi hlt mid hbelow ih =>
    have hmid : mid < m := (hm mid (by omega)).1 hbelow
    exact ih hmid hhi hin
  | case2 lo hi hlt mid hbelow ih =>
    have hmid : ¬ mid < m := fun h => hbelow ((hm mid (by omega)).2 h)
    exact ih hlo (by omega) (by omega)
  | case3 lo hi hge => omega

section Fitting

variable {content : Text} (hfits : content.length < 2 ^ 32)
include hfits

/-- An offset of a content is told by its word. -/
theorem toNat_ofNat_of_inside {p : Nat} (hp : p ≤ content.length) : (UInt32.ofNat p).toNat = p :=
  UInt32.toNat_ofNat_of_lt' (by rw [show UInt32.size = 2 ^ 32 from rfl]; omega)

/-- The entries below an offset are as many as the line feeds before it. -/
theorem getD_breaks_lt_iff {off : UInt32} {k : Nat} (hk : k < (breaks content).length) :
    (breaks content).getD k 0 < off ↔ k + 1 < lineAt content off.toNat := by
  obtain ⟨p, hp, hline, hb⟩ := (getElem?_breaks content k _).1 (List.getElem?_eq_getElem hk)
  have hin : p < content.length := (List.getElem?_eq_some_iff.1 hp).1
  rw [List.getD_eq_getElem _ _ hk, hb, UInt32.lt_iff_toNat_lt,
    toNat_ofNat_of_inside hfits (Nat.le_of_lt hin), ← hline]
  constructor
  · intro hlt
    have hmono : lineAt content (p + 1) ≤ lineAt content off.toNat := lineAt_mono content hlt
    rwa [lineAt_succ hp] at hmono
  · intro hlt
    by_contra hge
    have hmono := lineAt_mono content (Nat.le_of_not_lt hge)
    omega

theorem breaksBefore_breaks (off : UInt32) :
    breaksBefore (breaks content) off 0 (breaks content).length + 1 =
      lineAt content off.toNat := by
  have hpos := lineAt_pos content off.toNat
  have hcount : lineAt content off.toNat - 1 ≤ (breaks content).length := by
    have hle := (List.take_sublist off.toNat content).count_le Cursor.lineFeed
    rw [length_breaks, lineAt]
    omega
  have hfound : breaksBefore (breaks content) off 0 (breaks content).length =
      lineAt content off.toNat - 1 := by
    refine breaksBefore_eq (fun k hk => ?_) (Nat.zero_le _) hcount (Nat.le_refl _)
    rw [getD_breaks_lt_iff hfits hk]
    omega
  omega

/-- **The place of an offset in words**: its line, and from one on its distance from the start
of that line. -/
theorem exists_lineCol_words (off : UInt32) :
    ∃ s ≤ off.toNat, StartsLine content (lineAt content off.toNat) s ∧
      lineCol (breaks content) off =
        ⟨UInt32.ofNat (lineAt content off.toNat), UInt32.ofNat (off.toNat - s + 1)⟩ := by
  have hbefore := breaksBefore_breaks hfits off
  generalize hn : breaksBefore (breaks content) off 0 (breaks content).length = n at hbefore
  have hwords : ∀ s ≤ off.toNat,
      (if n = 0 then 0 else (breaks content).getD (n - 1) 0 + 1) = UInt32.ofNat s →
      lineCol (breaks content) off =
        ⟨UInt32.ofNat (lineAt content off.toNat), UInt32.ofNat (off.toNat - s + 1)⟩ := by
    intro s hs hstart
    have hcol : off - UInt32.ofNat s + 1 = UInt32.ofNat (off.toNat - s + 1) := by
      rw [UInt32.ofNat_add, UInt32.ofNat_sub hs, UInt32.ofNat_toNat]
      rfl
    have hline : UInt32.ofNat n + 1 = UInt32.ofNat (lineAt content off.toNat) := by
      rw [← hbefore, UInt32.ofNat_add]
      rfl
    rw [lineCol, hn, hstart, hcol, hline]
  cases n with
  | zero =>
    refine ⟨0, Nat.zero_le _, ?_, hwords 0 (Nat.zero_le _) rfl⟩
    rw [← hbefore]
    exact startsLine_zero content
  | succ n =>
    -- The entry before the one searched for is the line feed that the line starts behind.
    have hlt : n < (breaks content).length := by
      have hle := (List.take_sublist off.toNat content).count_le Cursor.lineFeed
      rw [lineAt] at hbefore
      rw [length_breaks]
      omega
    have hentry := List.getElem?_eq_getElem hlt
    obtain ⟨p, hp, hpline, hb⟩ := (getElem?_breaks content n _).1 hentry
    have hstarts : StartsLine content (lineAt content off.toNat) (p + 1) :=
      ⟨.inr ⟨p, rfl, hp⟩, by rw [lineAt_succ hp, hpline, hbefore]⟩
    have hle : p + 1 ≤ off.toNat := by
      by_contra hgt
      exact absurd (hstarts.lineAt_lt (Nat.lt_of_not_le hgt)) (Nat.lt_irrefl _)
    refine ⟨p + 1, hle, hstarts, hwords (p + 1) hle ?_⟩
    rw [if_neg (Nat.succ_ne_zero n), Nat.succ_sub_one, List.getD_eq_getElem _ _ hlt, hb,
      UInt32.ofNat_add p 1]
    rfl

end Fitting

section Short

variable {content : Text} (hshort : content.length < 2 ^ 32 - 1)
include hshort

/-- On a short content the number behind an offset is told by its word, too. -/
theorem toNat_ofNat_of_le {p : Nat} (hp : p ≤ content.length + 1) :
    (UInt32.ofNat p).toNat = p :=
  UInt32.toNat_ofNat_of_lt' (by rw [show UInt32.size = 2 ^ 32 from rfl]; omega)

theorem length_breaks_succ_lt : (breaks content).length + 1 < 2 ^ 32 := by
  have hle := List.count_le_length (a := Cursor.lineFeed) (l := content)
  rw [length_breaks]
  omega

/-- **The place of an offset** is its line and, from one on, its distance from the start of
that line. -/
theorem exists_lineCol_breaks {off : UInt32} (hoff : off.toNat ≤ content.length) :
    ∃ s ≤ off.toNat, StartsLine content (lineAt content off.toNat) s ∧
      (lineCol (breaks content) off).line.toNat = lineAt content off.toNat ∧
      (lineCol (breaks content) off).col.toNat = off.toNat - s + 1 := by
  have hlines := lineAt_le content off.toNat
  obtain ⟨s, hle, hstarts, hwords⟩ := exists_lineCol_words (by omega : content.length < 2 ^ 32) off
  rw [hwords]
  exact ⟨s, hle, hstarts, toNat_ofNat_of_le hshort (by omega), toNat_ofNat_of_le hshort (by omega)⟩

end Short

end Source

/-! ## File sets -/

namespace FileSet

/-- File sets that come about by adding contents and loading files. -/
inductive Made : FileSet → Prop where
  | empty (base : Text) : Made { base }
  | rebase {fs : FileSet} (base : Text) (made : Made fs) : Made { fs with base }
  | add {fs : FileSet} (path content : Text) (flags : FileFlags) (made : Made fs) :
      Made (fs.add path content flags)
  | load {fs fs' : FileSet} {d : Disk} {path : Text} {f : SourceFile} (made : Made fs)
      (loaded : fs.load d path = (.ok f, fs')) : Made fs'

/-- What every file of a file set says of itself: its number, and where its lines end. -/
def Indexed (fs : FileSet) : Prop :=
  ∀ (id : FileId) (f : SourceFile), fs.get? id = some f →
    f.id = id ∧ f.breaks = Source.breaks f.content

/-- Adding a file keeps the others and gives the new one its number and its index. -/
theorem Indexed.add {fs : FileSet} (h : fs.Indexed) (path content : Text) (flags : FileFlags) :
    (fs.add path content flags).Indexed := by
  intro id f hf
  rw [get?, FileSet.add, Array.getElem?_push] at hf
  split at hf
  · rename_i hlast
    obtain rfl := Option.some.inj hf
    refine ⟨?_, rfl⟩
    show UInt32.ofNat fs.files.size = id
    rw [← hlast, UInt32.ofNat_toNat]
  · exact h id f hf

/-- **Every file set is indexed.** -/
theorem Made.indexed {fs : FileSet} (h : fs.Made) : fs.Indexed := by
  induction h with
  | empty base =>
    intro id f hf
    rw [get?] at hf
    simp at hf
  | rebase base made ih => exact ih
  | add path content flags made ih => exact ih.add path content flags
  | @load fs fs' d path f made loaded ih =>
    rw [FileSet.load] at loaded
    split at loaded
    · cases loaded
    rw [store] at loaded
    split at loaded
    · cases loaded
    split at loaded
    · cases loaded
    · obtain ⟨-, rfl⟩ := Prod.mk.inj loaded
      exact ih.add _ _ _

end FileSet

/-- **The two line counters agree.**  A file of a file set that is shorter than `2 ^ 32 - 1`
bytes is read as tokens, the end of the input and trimmed raw literals among them, whose
line is one more than the line feeds before their span; and the line where the span starts
by the line index of the file is the same. -/
theorem FileSet.Made.token_line_eq_resolved {fs : FileSet} (hfs : fs.Made) (id : FileId)
    {f : SourceFile} (hf : fs.get? id = some f) (hshort : f.content.length < 2 ^ 32 - 1) :
    ∀ t ∈ (tokenize id f.content).tokens,
      t.line.toNat = 1 + (f.content.take t.span.start.toNat).count Cursor.lineFeed ∧
        ∃ g, fs.get? t.span.file = some g ∧ (g.resolve t.span).1.line = t.line := by
  intro t ht
  obtain ⟨-, hindex⟩ := hfs.indexed id f hf
  obtain ⟨a, b, hcovers⟩ := (readFrom_tokenize id f.content).exists_covers t ht
  obtain ⟨hstart, -, hline⟩ := TokenStream.covers_toNat hshort hcovers
  have hin : t.span.start.toNat ≤ f.content.length := by
    rw [hstart]
    exact Nat.le_trans hcovers.ordered hcovers.inside
  obtain ⟨-, -, -, hresolved, -⟩ := Source.exists_lineCol_breaks hshort hin
  refine ⟨by rw [hline, hstart, lineAt], f, by rw [hcovers.span_eq, hf], ?_⟩
  rw [SourceFile.resolve, hindex, ← UInt32.toNat_inj, hresolved, hline, hstart]

/-- In the second version of a file, a string over two lines stands before a raw literal that
keeps what starts two lines further on. -/
theorem FileSet.Made.token_line_eq_resolved_trimmed :
    (⟨.rawLit, 4, ⟨1, 11, 12⟩⟩ : Token) ∈ (tokenize 1 "\"a\nb\" -\x7b\n\n x\x7d").tokens ∧
      ∃ g, (((({} : FileSet).addVirtual "a" "x").addVirtual "a"
          "\"a\nb\" -\x7b\n\n x\x7d").get? 1 = some g) ∧
        (g.resolve ⟨1, 11, 12⟩).1.line = 4 := by
  have hmem : (⟨.rawLit, 4, ⟨1, 11, 12⟩⟩ : Token) ∈
      (tokenize 1 "\"a\nb\" -\x7b\n\n x\x7d").tokens := by decide +kernel
  have hmade := ((FileSet.Made.empty []).add "a" "x" .isVirtual).add "a"
    "\"a\nb\" -\x7b\n\n x\x7d" .isVirtual
  exact ⟨hmem, (hmade.token_line_eq_resolved 1 rfl (by decide) _ hmem).2⟩

end Tarjuman
