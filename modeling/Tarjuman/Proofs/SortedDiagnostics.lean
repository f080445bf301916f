/-
# Diagnostics in order

Diagnostics are sorted in two places: in a bag, and as single lines for the golden form.  Both
comparisons go by a rank, a tuple in lexicographic order (`Bag.comparesBy_order`,
`DiagnosticLine.comparesBy_order`), and all that is said of the two sorts follows from that.

The rank of a diagnostic leaves out its message and its notes, so what is level in a bag need not
be equal, and there the order of insertion counts: those that are level keep their places
(`ComparesBy.filter_mergeSort`).  Clearing a sorted bag of repetitions goes by code and span
alone, but among those the worst come first in the order, and so nothing worse than what is kept
is lost (`Bag.level_le_of_mem_sort_dedup`).  The rank of a line is all that is written of it, so
lines that are level are equal, and their sorted list does not tell in which order they came
(`ComparesBy.mergeSort_eq_of_perm`).
-/

import Mathlib
import Tarjuman.Diagnostic.Line
import Tarjuman.Proofs.BagLimit

namespace Tarjuman

/-! ## Sorting by a rank -/

/-- The comparison goes by a rank. -/
def ComparesBy {α κ : Type} [LinearOrder κ] (order : α → α → Ordering) (rank : α → κ) : Prop :=
  ∀ a b, order a b = compare (rank a) (rank b)

namespace ComparesBy

variable {α κ : Type} [LinearOrder κ] {order : α → α → Ordering} {rank : α → κ}

theorem le_iff (h : ComparesBy order rank) (a b : α) :
    (order a b != .gt) = true ↔ rank a ≤ rank b := by
  rw [bne_iff_ne, h, compare_le_iff_le]

theorem trans (h : ComparesBy order rank) (a b c : α) (hab : (order a b != .gt) = true)
    (hbc : (order b c != .gt) = true) : (order a c != .gt) = true := by
  rw [h.le_iff] at *
  exact hab.trans hbc

theorem total (h : ComparesBy order rank) (a b : α) :
    ((order a b != .gt) || (order b a != .gt)) = true := by
  rw [Bool.or_eq_true, h.le_iff, h.le_iff]
  exact le_total _ _

theorem pairwise_mergeSort (h : ComparesBy order rank) (l : List α) :
    (l.mergeSort fun a b => order a b != .gt).Pairwise fun a b => rank a ≤ rank b :=
  (List.pairwise_mergeSort h.trans h.total l).imp (h.le_iff _ _).1

/-- What is in order already stays as it is. -/
theorem mergeSort_of_pairwise (h : ComparesBy order rank) {l : List α}
    (hl : l.Pairwise fun a b => rank a ≤ rank b) :
    (l.mergeSort fun a b => order a b != .gt) = l :=
  List.mergeSort_of_pairwise (hl.imp (h.le_iff _ _).2)

/-- **Those that are level keep their places** among each other. -/
theorem filter_mergeSort (h : ComparesBy order rank) {p : α → Bool}
    (hp : ∀ a b, p a = true → p b = true → rank a ≤ rank b) (l : List α) :
    (l.mergeSort fun a b => order a b != .gt).filter p = l.filter p := by
  have hlevel : (l.filter p).Pairwise fun a b => (order a b != .gt) = true :=
    List.pairwise_of_forall_mem_list fun a ha b hb =>
      (h.le_iff a b).2 (hp a b (List.mem_filter.1 ha).2 (List.mem_filter.1 hb).2)
  -- They are a sublist of the sorted list, too, and there are no others of the kind in it.
  have hsub := (List.sublist_mergeSort h.trans h.total hlevel List.filter_sublist).filter p
  rw [List.filter_filter] at hsub
  simp only [Bool.and_self] at hsub
  refine (hsub.eq_of_length ?_).symm
  exact ((List.mergeSort_perm l _).filter p).length_eq.symm

/-- **Ranks that tell all apart leave one order**, whatever the order was before. -/
theorem mergeSort_eq_of_perm (h : ComparesBy order rank) (hrank : Function.Injective rank)
    {l l' : List α} (hperm : l.Perm l') :
    (l.mergeSort fun a b => order a b != .gt) = l'.mergeSort fun a b => order a b != .gt := by
  refine List.Perm.eq_of_pairwise (fun a b _ _ hab hba => hrank (le_antisymm hab hba))
    (h.pairwise_mergeSort l) (h.pairwise_mergeSort l') ?_
  exact ((List.mergeSort_perm l _).trans hperm).trans (List.mergeSort_perm l' _).symm

end ComparesBy

section Words

variable {α κ : Type} [LinearOrder κ] [LT α] [DecidableLT α] [DecidableEq α]

/-- A comparison by `<` and `=` goes by every map that keeps the one and tells the other. -/
theorem comparesBy_compareOfLessAndEq {f : α → κ} (hlt : ∀ a b, a < b ↔ f a < f b)
    (hf : Function.Injective f) : ComparesBy (fun a b => compareOfLessAndEq a b) f := by
  intro a b
  rw [LinearOrder.compare_eq_compareOfLessAndEq]
  simp only [compareOfLessAndEq, hlt, hf.eq_iff]

end Words

theorem comparesBy_word8 : ComparesBy compare UInt8.toNat :=
  comparesBy_compareOfLessAndEq (fun _ _ => UInt8.lt_iff_toNat_lt) fun _ _ => UInt8.toNat_inj.1

theorem comparesBy_word16 : ComparesBy compare UInt16.toNat :=
  comparesBy_compareOfLessAndEq (fun _ _ => UInt16.lt_iff_toNat_lt) fun _ _ => UInt16.toNat_inj.1

theorem comparesBy_word32 : ComparesBy compare UInt32.toNat :=
  comparesBy_compareOfLessAndEq (fun _ _ => UInt32.lt_iff_toNat_lt) fun _ _ => UInt32.toNat_inj.1

/-! ## Bags -/

namespace Diagnostic

/-- What repetitions are told by: the code and the span. -/
def finding (d : Diagnostic) : Code × Span := (d.code, d.span)

/-- What diagnostics are sorted by: file, start and stop, then the severity, the worse ones first,
then the code. -/
def rank (d : Diagnostic) : ℕ ×ₗ ℕ ×ₗ ℕ ×ₗ ℕᵒᵈ ×ₗ ℕ :=
  toLex (d.span.file.toNat, toLex (d.span.start.toNat, toLex (d.span.stop.toNat,
    toLex (OrderDual.toDual d.severity.level.toNat, d.code.number.toNat))))

variable {d e : Diagnostic}

/-- A rank tells the code, the span and the severity. -/
theorem rank_eq_iff : d.rank = e.rank ↔ d.finding = e.finding ∧ d.severity = e.severity := by
  obtain ⟨⟨level⟩, ⟨code⟩, ⟨file, start, stop⟩, _, _⟩ := d
  obtain ⟨⟨level'⟩, ⟨code'⟩, ⟨file', start', stop'⟩, _, _⟩ := e
  simp only [rank, finding, EmbeddingLike.apply_eq_iff_eq, Prod.mk.injEq, UInt8.toNat_inj,
    UInt16.toNat_inj, UInt32.toNat_inj, Code.mk.injEq, Span.mk.injEq, Severity.mk.injEq]
  tauto

/-- Of two with one code and one span the worse one comes first. -/
theorem rank_le_iff (h : d.finding = e.finding) :
    d.rank ≤ e.rank ↔ e.severity.level ≤ d.severity.level := by
  obtain ⟨hcode, hspan⟩ := Prod.mk.inj h
  simp only [rank, hcode, hspan, Prod.Lex.toLex_le_toLex, lt_irrefl, false_or, true_and, le_refl,
    and_true, OrderDual.toDual_lt_toDual, EmbeddingLike.apply_eq_iff_eq, UInt8.le_iff_toNat_le]
  omega

end Diagnostic

namespace Bag

theorem comparesBy_order : ComparesBy order Diagnostic.rank := fun _ _ =>
  congrArg₂ Ordering.then (comparesBy_word32 _ _) <|
  congrArg₂ Ordering.then (comparesBy_word32 _ _) <|
  congrArg₂ Ordering.then (comparesBy_word32 _ _) <|
  congrArg₂ Ordering.then (comparesBy_word8 _ _) (comparesBy_word16 _ _)

variable {l seen : List Diagnostic} {d : Diagnostic} {k : Code × Span} {b : Bag}

/-! ### The first of several -/

theorem firstsFrom_cons (seen : List Diagnostic) (d : Diagnostic) (l : List Diagnostic) :
    firstsFrom seen (d :: l) =
      if d.finding ∈ seen.map Diagnostic.finding then firstsFrom seen l
      else d :: firstsFrom (d :: seen) l := by
  rw [firstsFrom]
  congr 1
  simp [Diagnostic.finding]

theorem firstsFrom_sublist (seen l : List Diagnostic) : (firstsFrom seen l).Sublist l := by
  induction l generalizing seen with
  | nil => exact .slnil
  | cons d l ih =>
    rw [firstsFrom_cons]
    split
    · exact (ih seen).cons d
    · exact (ih (d :: seen)).cons_cons d

/-- A code and a span that occur stay, unless they were seen before. -/
theorem mem_findings_firstsFrom :
    k ∈ (firstsFrom seen l).map Diagnostic.finding ↔
      k ∈ l.map Diagnostic.finding ∧ k ∉ seen.map Diagnostic.finding := by
  induction l generalizing seen with
  | nil => simp [firstsFrom]
  | cons d l ih =>
    rw [firstsFrom_cons]
    split
    · rename_i hseen
      rw [ih, List.map_cons, List.mem_cons]
      refine and_congr_left fun hk => ⟨.inr, fun h => h.resolve_left ?_⟩
      rintro rfl
      exact hk hseen
    · rename_i hseen
      rw [List.map_cons, List.map_cons, List.mem_cons, List.mem_cons, ih, List.map_cons,
        List.mem_cons]
      by_cases hk : k = d.finding
      · simp [hk, hseen]
      · simp [hk]

theorem nodup_findings_firstsFrom (seen l : List Diagnostic) :
    ((firstsFrom seen l).map Diagnostic.finding).Nodup := by
  induction l generalizing seen with
  | nil => exact List.nodup_nil
  | cons d l ih =>
    rw [firstsFrom_cons]
    split
    · exact ih seen
    · refine List.nodup_cons.2 ⟨fun hd => ?_, ih (d :: seen)⟩
      exact (mem_findings_firstsFrom.1 hd).2 List.mem_cons_self

/-- What stays is the first with its code and span. -/
theorem find?_of_mem_firstsFrom (h : d ∈ firstsFrom seen l) :
    l.find? (fun e => e.finding = d.finding) = some d := by
  induction l generalizing seen with
  | nil => cases h
  | cons e l ih =>
    have hnew := (mem_findings_firstsFrom.1 (List.mem_map_of_mem h)).2
    rw [firstsFrom_cons] at h
    split at h
    · rename_i hseen
      have hne : e.finding ≠ d.finding := fun heq => hnew (heq ▸ hseen)
      rw [List.find?_cons_of_neg (by simpa using hne), ih h]
    · rcases List.mem_cons.1 h with rfl | h
      · exact List.find?_cons_of_pos (by simp)
      · have hne : e.finding ≠ d.finding := fun heq =>
          (mem_findings_firstsFrom.1 (List.mem_map_of_mem h)).2 (heq ▸ List.mem_cons_self)
        rw [List.find?_cons_of_neg (by simpa using hne), ih h]

theorem firstsFrom_eq_self (h : (l.map Diagnostic.finding).Nodup)
    (hseen : ∀ e ∈ l, e.finding ∉ seen.map Diagnostic.finding) : firstsFrom seen l = l := by
  induction l generalizing seen with
  | nil => rfl
  | cons d l ih =>
    rw [List.forall_mem_cons] at hseen
    obtain ⟨hd, hnodup⟩ := List.nodup_cons.1 h
    rw [firstsFrom_cons, if_neg hseen.1, ih hnodup fun e he hmem => ?_]
    rcases List.mem_cons.1 hmem with heq | hmem
    · exact hd (heq ▸ List.mem_map_of_mem he)
    · exact hseen.2 e he hmem

/-! ### Sorted and cleared of repetitions -/

theorem toList_sort_dedup (b : Bag) :
    b.sort.dedup.toList = firstsFrom [] (b.toList.mergeSort fun x y => order x y != .gt) := by
  rw [dedup, toList, sort, toList]

theorem nodup_findings_sort_dedup (b : Bag) :
    (b.sort.dedup.toList.map Diagnostic.finding).Nodup := by
  rw [toList_sort_dedup]
  exact nodup_findings_firstsFrom [] _

theorem mem_findings_sort_dedup (b : Bag) (k : Code × Span) :
    k ∈ b.sort.dedup.toList.map Diagnostic.finding ↔ k ∈ b.toList.map Diagnostic.finding := by
  rw [toList_sort_dedup, mem_findings_firstsFrom, and_iff_left (by simp)]
  exact ((List.mergeSort_perm _ _).map _).mem_iff

/-- Equal ranks are equal codes and spans, so no rank comes twice. -/
theorem pairwise_sort_dedup (b : Bag) :
    b.sort.dedup.toList.Pairwise fun d e => d.rank < e.rank := by
  have hsorted : b.sort.dedup.toList.Pairwise fun d e => d.rank ≤ e.rank := by
    rw [toList_sort_dedup]
    exact (comparesBy_order.pairwise_mergeSort b.toList).sublist (firstsFrom_sublist [] _)
  refine hsorted.imp₂ (fun d e hle hne => lt_of_le_of_ne hle fun heq => ?_)
    (List.pairwise_map.1 b.nodup_findings_sort_dedup)
  exact hne (Diagnostic.rank_eq_iff.1 heq).1

/-- Before what stays nothing of its code and span stands in the sorted list. -/
theorem exists_split_of_mem_sort_dedup (h : d ∈ b.sort.dedup.toList) :
    ∃ before after, (b.toList.mergeSort fun x y => order x y != .gt) = before ++ d :: after ∧
      ∀ e ∈ before, e.finding ≠ d.finding := by
  rw [toList_sort_dedup] at h
  obtain ⟨-, before, after, hsplit, hbefore⟩ :=
    List.find?_eq_some_iff_append.1 (find?_of_mem_firstsFrom h)
  exact ⟨before, after, hsplit, fun e he => by simpa using hbefore e he⟩

/-- **What stays is the worst** with its code and span. -/
theorem level_le_of_mem_sort_dedup (h : d ∈ b.sort.dedup.toList) {e : Diagnostic}
    (he : e ∈ b.toList) (hfinding : e.finding = d.finding) :
    e.severity.level ≤ d.severity.level := by
  obtain ⟨before, after, hsplit, hbefore⟩ := exists_split_of_mem_sort_dedup h
  have hsorted := comparesBy_order.pairwise_mergeSort b.toList
  have hmem : e ∈ b.toList.mergeSort fun x y => order x y != .gt := List.mem_mergeSort.2 he
  rw [hsplit] at hmem hsorted
  rcases List.mem_append.1 hmem with hmem | hmem
  · exact absurd hfinding (hbefore e hmem)
  rcases List.mem_cons.1 hmem with rfl | hmem
  · exact UInt8.le_refl _
  · have hle := List.rel_of_pairwise_cons (List.pairwise_append.1 hsorted).2.1 hmem
    exact (Diagnostic.rank_le_iff hfinding.symm).1 hle

/-- **What stays is the first of the worst** with its code and span, in the order of insertion. -/
theorem find?_of_mem_sort_dedup (h : d ∈ b.sort.dedup.toList) :
    b.toList.find? (fun e => e.finding = d.finding ∧ e.severity = d.severity) = some d := by
  have hrank (x : Diagnostic)
      (hx : decide (x.finding = d.finding ∧ x.severity = d.severity) = true) : x.rank = d.rank :=
    Diagnostic.rank_eq_iff.2 (of_decide_eq_true hx)
  rw [← List.head?_filter, ← comparesBy_order.filter_mergeSort
    fun x y hx hy => le_of_eq ((hrank x hx).trans (hrank y hy).symm), List.head?_filter]
  obtain ⟨before, after, hsplit, hbefore⟩ := exists_split_of_mem_sort_dedup h
  refine List.find?_eq_some_iff_append.2 ⟨by simp, before, after, hsplit, fun e he => ?_⟩
  simp [hbefore e he]

/-- A level is reached afterwards exactly if it was reached before. -/
theorem any_sort_dedup (b : Bag) (level : UInt8) :
    b.sort.dedup.items.any (fun d => level ≤ d.severity.level) =
      b.items.any (fun d => level ≤ d.severity.level) := by
  rw [← Array.any_toList, ← Array.any_toList, Bool.eq_iff_iff, List.any_eq_true, List.any_eq_true]
  constructor
  · rintro ⟨d, hd, hlevel⟩
    exact ⟨d, List.mem_of_find?_eq_some (find?_of_mem_sort_dedup hd), hlevel⟩
  · rintro ⟨e, he, hlevel⟩
    obtain ⟨d, hd, hfinding⟩ :=
      List.mem_map.1 ((b.mem_findings_sort_dedup e.finding).2 (List.mem_map_of_mem he))
    have hle := level_le_of_mem_sort_dedup hd he hfinding.symm
    exact ⟨d, hd, decide_eq_true (UInt8.le_trans (of_decide_eq_true hlevel) hle)⟩

/-- Once sorted and cleared of repetitions a bag stays as it is. -/
theorem sort_dedup_sort_dedup (b : Bag) : b.sort.dedup.sort.dedup = b.sort.dedup := by
  refine ext ?_ rfl
  rw [toList_sort_dedup b.sort.dedup,
    comparesBy_order.mergeSort_of_pairwise (b.pairwise_sort_dedup.imp le_of_lt)]
  exact firstsFrom_eq_self b.nodup_findings_sort_dedup fun _ _ => List.not_mem_nil

end Bag

/-- **A bag that is sorted and then cleared of repetitions is a faithful summary of it.**  Its
diagnostics are strictly increasing by file, start, stop, severity, the worse ones first, and code.
Every code and span that occurred before occurs exactly once, and nothing else does; it stands
there with the first diagnostic, in the order of insertion, that has the worst severity of all with
that code and span.  Whether there are errors, and whether there are warnings, is as before.  Doing
both again changes nothing. -/
theorem sort_dedup_summarizes (b : Bag) :
    (b.sort.dedup.toList.Pairwise fun d e => d.rank < e.rank) ∧
    (∀ k, (b.sort.dedup.toList.map Diagnostic.finding).count k =
      if k ∈ b.toList.map Diagnostic.finding then 1 else 0) ∧
    (∀ d ∈ b.sort.dedup.toList,
      (∀ e ∈ b.toList, e.finding = d.finding → e.severity.level ≤ d.severity.level) ∧
      b.toList.find? (fun e => e.finding = d.finding ∧ e.severity = d.severity) = some d) ∧
    b.sort.dedup.hasErrors = b.hasErrors ∧ b.sort.dedup.hasWarnings = b.hasWarnings ∧
    b.sort.dedup.sort.dedup = b.sort.dedup := by
  refine ⟨b.pairwise_sort_dedup, fun k => ?_, fun d hd => ⟨fun e he hfinding => ?_, ?_⟩,
    b.any_sort_dedup _, b.any_sort_dedup _, b.sort_dedup_sort_dedup⟩
  · rw [b.nodup_findings_sort_dedup.count]
    simp only [b.mem_findings_sort_dedup]
  · exact Bag.level_le_of_mem_sort_dedup hd he hfinding
  · exact Bag.find?_of_mem_sort_dedup hd

/-- One finding four times: twice as a warning and then twice as an error, with four messages. -/
def repeatedFindings : List Diagnostic :=
  [.warning .redeclared ⟨0, 10, 12⟩ "w", .warning .redeclared ⟨0, 10, 12⟩ "w again",
   .error .redeclared ⟨0, 10, 12⟩ "e", .error .redeclared ⟨0, 10, 12⟩ "e again"]

/-- The first of the errors is what stays. -/
theorem sort_dedup_summarizes_repeated :
    Diagnostic.error .redeclared ⟨0, 10, 12⟩ "e" ∈
      (Bag.ofList 0 repeatedFindings).sort.dedup.toList := by
  have hlist : (Bag.ofList 0 repeatedFindings).toList = repeatedFindings := rfl
  obtain ⟨-, honce, hkept, -⟩ := sort_dedup_summarizes (Bag.ofList 0 repeatedFindings)
  have hcount := honce (.redeclared, ⟨0, 10, 12⟩)
  rw [hlist, if_pos (by decide)] at hcount
  obtain ⟨d, hd, hfinding⟩ := List.mem_map.1 (List.count_pos_iff.1 (hcount ▸ Nat.one_pos))
  obtain ⟨hworst, hfirst⟩ := hkept d hd
  rw [hlist] at hworst hfirst
  have herror := hworst (.error .redeclared ⟨0, 10, 12⟩ "e") (by decide) hfinding.symm
  have hmem := List.mem_of_find?_eq_some hfirst
  simp only [repeatedFindings, List.mem_cons, List.not_mem_nil, or_false] at hmem
  rcases hmem with rfl | rfl | rfl | rfl
  · exact absurd herror (by decide)
  · exact absurd herror (by decide)
  · exact hd
  · exact absurd hfirst (by decide)

/-! ## Lines -/

namespace Text

/-- The bytes of a text as numbers. -/
def numbers (s : Text) : List ℕ := s.map UInt8.toNat

theorem numbers_injective : Function.Injective numbers :=
  List.map_injective_iff.2 fun _ _ => UInt8.toNat_inj.1

theorem lt_iff_numbers (a b : Text) : a < b ↔ a.numbers < b.numbers := by
  induction a generalizing b with
  | nil => cases b <;> simp [numbers]
  | cons x a ih =>
    cases b with
    | nil => simp [numbers]
    | cons y b =>
      simp only [numbers, List.map_cons, List.cons_lt_cons_iff] at *
      rw [ih, UInt8.lt_iff_toNat_lt, UInt8.toNat_inj]

/-- Texts are compared byte by byte. -/
theorem comparesBy_order : ComparesBy order numbers := by
  intro a b
  rw [← comparesBy_compareOfLessAndEq lt_iff_numbers numbers_injective, order]
  dsimp only [compareOfLessAndEq]
  by_cases hab : a < b
  · rw [if_pos hab, if_pos hab]
  · rw [if_neg hab, if_neg hab]
    by_cases heq : a = b
    · rw [if_pos heq, if_neg (heq ▸ List.lt_irrefl _)]
    · rw [if_neg heq, if_pos]
      rw [lt_iff_numbers] at *
      exact lt_of_le_of_ne (not_lt.1 hab) fun h => heq (numbers_injective h).symm

end Text

namespace DiagnosticLine

/-- What lines are sorted by: path, line, column, label, code and message. -/
def rank (l : DiagnosticLine) : List ℕ ×ₗ ℕ ×ₗ ℕ ×ₗ List ℕ ×ₗ List ℕ ×ₗ List ℕ :=
  toLex (l.path.numbers, toLex (l.place.line.toNat, toLex (l.place.col.toNat,
    toLex (l.label.numbers, toLex (l.code.numbers, l.message.numbers)))))

/-- A rank tells all that is written in a line. -/
theorem rank_injective : Function.Injective rank := by
  rintro ⟨label, code, path, ⟨line, col⟩, message⟩ ⟨label', code', path', ⟨line', col'⟩, message'⟩ h
  simp only [rank, EmbeddingLike.apply_eq_iff_eq, Prod.mk.injEq, Text.numbers_injective.eq_iff,
    UInt32.toNat_inj] at h
  obtain ⟨rfl, rfl, rfl, rfl, rfl, rfl⟩ := h
  rfl

theorem comparesBy_order : ComparesBy order rank := fun _ _ =>
  congrArg₂ Ordering.then (Text.comparesBy_order _ _) <|
  congrArg₂ Ordering.then (comparesBy_word32 _ _) <|
  congrArg₂ Ordering.then (comparesBy_word32 _ _) <|
  congrArg₂ Ordering.then (Text.comparesBy_order _ _) <|
  congrArg₂ Ordering.then (Text.comparesBy_order _ _) (Text.comparesBy_order _ _)

/-- Each diagnostic has its own lines, whatever stands around it. -/
theorem perm_ofDiagnostics (fs : Option FileSet) (cwd : Text) (notes : Bool)
    {ds es : List Diagnostic} (h : ds.Perm es) :
    (ofDiagnostics fs cwd notes ds).Perm (ofDiagnostics fs cwd notes es) := by
  cases fs with
  | none => exact .nil
  | some fs => exact h.flatMap_right _

/-- **The golden form does not tell in which order the diagnostics were made**, with notes or
without, for any file set or none and for any spans.  Its lines are those of the short form, put in
order. -/
theorem golden_of_perm (fs : Option FileSet) (cwd : Text) (notes : Bool)
    {ds es : List Diagnostic} (h : ds.Perm es) :
    golden fs cwd notes ds = golden fs cwd notes es ∧
      ∃ lines, golden fs cwd notes ds = joined lines ∧
        short fs cwd notes ds = joined (ofDiagnostics fs cwd notes ds) ∧
        lines.Perm (ofDiagnostics fs cwd notes ds) ∧
        lines.Pairwise fun a b => a.rank ≤ b.rank := by
  refine ⟨congrArg joined ?_, _, rfl, rfl, List.mergeSort_perm _ _,
    comparesBy_order.pairwise_mergeSort _⟩
  exact comparesBy_order.mergeSort_eq_of_perm rank_injective (perm_ofDiagnostics fs cwd notes h)

/-- A set with one file of two lines. -/
def twoLines : FileSet := ({} : FileSet).addVirtual "a" "x\ny"

/-- An error on the first line with a note on the second. -/
def onFirst : Diagnostic :=
  (Diagnostic.error .invalidStatement ⟨0, 0, 1⟩ "first").withNote ⟨0, 2, 3⟩ "see here"

/-- An error on the second line. -/
def onSecond : Diagnostic := .error .invalidStatement ⟨0, 2, 3⟩ "second"

/-- The short form of two errors tells their order, the golden form does not. -/
theorem golden_of_perm_swapped :
    golden (some twoLines) "/w" true [onFirst, onSecond] =
      golden (some twoLines) "/w" true [onSecond, onFirst] ∧
    short (some twoLines) "/w" true [onFirst, onSecond] ≠
      short (some twoLines) "/w" true [onSecond, onFirst] :=
  ⟨(golden_of_perm (some twoLines) "/w" true (.swap _ _ [])).1, by cbv; decide⟩

end DiagnosticLine
end Tarjuman
