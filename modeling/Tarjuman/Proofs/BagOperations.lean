/-
# What can be done with bags

Bags are made with a limit and then filled, merged, sorted and cleared of repetitions, in any
order.  Each of these leaves a bag that is within its limit within a limit that is no lower
(`Bag.Keeps`), so this holds of all bags along every run (`BagOp.within_run`,
`BagOp.limit_le_run`), and the limit is always shown as it is (`Bag.Within.toNat_cap`).

A merge makes room first: whatever the limit was, the bag then holds the diagnostics of both, the
first 65535 of them (`Bag.Within.toList_merge`).  That the other bag may be the bag itself makes
no difference.
-/

import Mathlib.Data.List.Induction
import Mathlib.Data.Nat.Basic
import Mathlib.Order.Basic
import Tarjuman.Proofs.BagLimit

namespace Tarjuman
namespace Bag

/-- The bag holds no more than its limit, which allows for one diagnostic and is not above the
ceiling. -/
structure Within (b : Bag) : Prop where
  size_le : b.size ≤ b.limit
  limit_pos : 1 ≤ b.limit
  limit_le : b.limit ≤ ceiling

/-- Bags within their limits stay so, and their limits are not lowered. -/
def Keeps (f : Bag → Bag) : Prop := ∀ b, b.Within → (f b).Within ∧ b.limit ≤ (f b).limit

variable {b : Bag}

theorem within_new (limit : Int) : (new limit).Within := by
  have hceiling : ceiling = 65535 := rfl
  refine ⟨Nat.zero_le _, capacity_pos limit, ?_⟩
  rw [new]
  dsimp only
  split <;> omega

theorem size_add (b : Bag) (d : Diagnostic) :
    (b.add d).size = b.size + min (b.limit - b.size) 1 := by
  rw [size_eq_length, toList_add, List.length_append, List.length_take, ← size_eq_length]
  rfl

theorem keeps_add (d : Diagnostic) : Keeps (·.add d) := by
  rintro b ⟨hsize, hpos, hle⟩
  refine ⟨⟨?_, ?_, ?_⟩, ?_⟩ <;> dsimp only <;> rw [limit_add]
  · rw [size_add]
    omega
  · exact hpos
  · exact hle

/-- The limit of a bag after a merge. -/
theorem limit_merge (b other : Bag) :
    (b.merge other).limit = max b.limit (min (b.size + other.size) ceiling) := limit_addAll _ _

theorem toList_merge (b other : Bag) :
    (b.merge other).toList =
      b.toList ++ other.toList.take ((b.merge other).limit - b.size) := by
  rw [limit_merge]
  exact toList_addAll _ _

theorem keeps_merge (other : Bag) : Keeps (·.merge other) := by
  rintro b ⟨hsize, hpos, hle⟩
  have hlimit := limit_merge b other
  refine ⟨⟨?_, ?_, ?_⟩, ?_⟩ <;> dsimp only
  · rw [size_eq_length, toList_merge, List.length_append, List.length_take, ← size_eq_length]
    omega
  · omega
  · omega
  · omega

theorem keeps_mergeWith (other : Option Bag) : Keeps (·.mergeWith other) := by
  cases other with
  | none => exact fun b h => ⟨h, le_rfl⟩
  | some other => exact keeps_merge other

/-- What puts other items into a bag, no more of them, keeps it within its limit. -/
theorem keeps_items {f : Bag → Bag} (hlimit : ∀ b, (f b).limit = b.limit)
    (hsize : ∀ b, (f b).size ≤ b.size) : Keeps f := by
  rintro b ⟨hle, hpos, hceiling⟩
  refine ⟨⟨?_, ?_, ?_⟩, ?_⟩ <;> rw [hlimit]
  · exact (hsize b).trans hle
  · exact hpos
  · exact hceiling

theorem keeps_sort : Keeps sort := by
  refine keeps_items (fun _ => rfl) fun b => ?_
  rw [size_eq_length, size_eq_length, sort, toList]
  exact (List.length_mergeSort _).le

theorem length_firstsFrom_le (seen ds : List Diagnostic) :
    (firstsFrom seen ds).length ≤ ds.length := by
  fun_induction firstsFrom seen ds with
  | case1 => exact le_rfl
  | case2 seen d r _ ih => exact Nat.le_succ_of_le ih
  | case3 seen d r _ ih => exact Nat.succ_le_succ ih

theorem keeps_dedup : Keeps dedup :=
  keeps_items (fun _ => rfl) fun b => length_firstsFrom_le [] b.toList

namespace Within

/-- A limit is shown as it is. -/
theorem toNat_cap (h : b.Within) : b.cap.toNat = b.limit := by
  have hceiling : ceiling = 65535 := rfl
  have hlimit := h.limit_le
  exact UInt16.toNat_ofNat_of_lt' (by rw [show UInt16.size = 65536 from rfl]; omega)

/-- **A merge leaves the first diagnostics of both bags**, as many as a bag can hold. -/
theorem toList_merge (h : b.Within) (other : Bag) :
    (b.merge other).toList = (b.toList ++ other.toList).take ceiling := by
  have hsize := h.size_le
  have hlimit := h.limit_le
  have hmerged := limit_merge b other
  rw [Bag.toList_merge, List.take_append, List.take_of_length_le (i := ceiling),
    ← size_eq_length]
  · congr 1
    -- Either everything of the other bag finds room or the limit is at the ceiling.
    rcases Nat.le_total (b.size + other.size) ceiling with hroom | hfull
    · rw [List.take_of_length_le, List.take_of_length_le] <;> rw [← size_eq_length] <;> omega
    · rw [show (b.merge other).limit = ceiling by omega]
  · rw [← size_eq_length]
    omega

end Within

/-- **There is room for a diagnostic exactly if it is put in.** -/
theorem offer_iff (b : Bag) (d : Diagnostic) :
    ((b.offer d).1 = true ↔ (b.offer d).2.toList = b.toList ++ [d]) ∧
      ((b.offer d).1 = false ↔ (b.offer d).2 = b) := by
  have hne : b.toList ≠ b.toList ++ [d] := by simp
  rw [offer, add]
  cases hfull : b.isFull with
  | true => simp
  | false =>
    have hpush : ({ b with items := b.items.push d } : Bag).toList = b.toList ++ [d] :=
      Array.toList_push
    refine ⟨iff_of_true rfl hpush, iff_of_false (by simp) fun h => hne ?_⟩
    exact (congrArg toList h.symm).trans hpush

end Bag

/-- Something that is done with bags.  They are numbered as they are made. -/
inductive BagOp where
  | new (limit : Int)
  | add (i : Nat) (d : Diagnostic)
  /-- Merge with the bag of another number, with the bag itself or with none. -/
  | merge (i : Nat) (other : Option Nat)
  | sort (i : Nat)
  | dedup (i : Nat)

namespace BagOp

/-- The bags after something was done with them. -/
def apply (bags : List Bag) : BagOp → List Bag
  | new limit => bags ++ [.new limit]
  | add i d => bags.modify i fun b => (b.offer d).2
  | merge i other => bags.modify i (·.mergeWith (other.bind (bags[·]?)))
  | sort i => bags.modify i Bag.sort
  | dedup i => bags.modify i Bag.dedup

/-- The bags after a sequence of operations. -/
def run (ops : List BagOp) : List Bag := ops.foldl apply []

/-- **What can be done**: a bag is made, or one of them is changed in a way that keeps it within
its limit. -/
theorem apply_cases (bags : List Bag) (op : BagOp) :
    (∃ limit, op.apply bags = bags ++ [.new limit]) ∨
      ∃ i f, op.apply bags = bags.modify i f ∧ Bag.Keeps f := by
  cases op with
  | new limit => exact .inl ⟨limit, rfl⟩
  | add i d => exact .inr ⟨i, _, rfl, Bag.keeps_add d⟩
  | merge i other => exact .inr ⟨i, _, rfl, Bag.keeps_mergeWith _⟩
  | sort i => exact .inr ⟨i, _, rfl, Bag.keeps_sort⟩
  | dedup i => exact .inr ⟨i, _, rfl, Bag.keeps_dedup⟩

variable {bags : List Bag} {i : Nat} {b : Bag}

theorem within_apply (h : ∀ b ∈ bags, b.Within) (op : BagOp) : ∀ b ∈ op.apply bags, b.Within := by
  obtain ⟨limit, happly⟩ | ⟨i, f, happly, hkeeps⟩ := apply_cases bags op
  · rw [happly]
    exact List.forall_mem_append.2 ⟨h, List.forall_mem_singleton.2 (Bag.within_new limit)⟩
  · rw [happly]
    intro b hb
    obtain ⟨j, hj⟩ := List.mem_iff_getElem?.1 hb
    rw [List.getElem?_modify] at hj
    obtain ⟨a, ha, rfl⟩ := Option.map_eq_some_iff.1 hj
    have hwithin := h a (List.mem_of_getElem? ha)
    split
    · exact (hkeeps a hwithin).1
    · exact hwithin

/-- A bag keeps its number, and its limit is not lowered. -/
theorem limit_le_apply (h : ∀ b ∈ bags, b.Within) (hb : bags[i]? = some b) (op : BagOp) :
    ∃ b', (op.apply bags)[i]? = some b' ∧ b.limit ≤ b'.limit := by
  obtain ⟨limit, happly⟩ | ⟨j, f, happly, hkeeps⟩ := apply_cases bags op
  · refine ⟨b, ?_, le_rfl⟩
    rw [happly, List.getElem?_append_left (List.getElem?_eq_some_iff.1 hb).1, hb]
  · refine ⟨if j = i then f b else b, ?_, ?_⟩
    · rw [happly, List.getElem?_modify, hb]
      rfl
    · split
      · exact (hkeeps b (h b (List.mem_of_getElem? hb))).2
      · exact le_rfl

theorem run_concat (ops : List BagOp) (op : BagOp) : run (ops ++ [op]) = op.apply (run ops) :=
  List.foldl_append

/-- **All bags are within their limits**, whatever was done with them. -/
theorem within_run (ops : List BagOp) : ∀ b ∈ run ops, b.Within := by
  induction ops using List.reverseRecOn with
  | nil => exact List.forall_mem_nil _
  | append_singleton ops op ih =>
    rw [run_concat]
    exact within_apply ih op

/-- **Limits are never lowered**, whatever is done next. -/
theorem limit_le_run {ops : List BagOp} (hb : (run ops)[i]? = some b) (more : List BagOp) :
    ∃ b', (run (ops ++ more))[i]? = some b' ∧ b.limit ≤ b'.limit := by
  induction more using List.reverseRecOn with
  | nil => exact ⟨b, by rwa [List.append_nil], le_rfl⟩
  | append_singleton more op ih =>
    obtain ⟨b₁, hb₁, hle₁⟩ := ih
    obtain ⟨b₂, hb₂, hle₂⟩ := limit_le_apply (within_run _) hb₁ op
    rw [← List.append_assoc, run_concat]
    exact ⟨b₂, hb₂, hle₁.trans hle₂⟩

/-- The bag that is merged, and all others, after a merge. -/
theorem getElem?_merge (bags : List Bag) (i j k : Nat) :
    ((merge i (some j)).apply bags)[k]? =
      bags[k]?.map fun b => if i = k then b.mergeWith bags[j]? else b :=
  List.getElem?_modify _ _ _ _

end BagOp

/-- **Bags stay within their limits.**  After any sequence of operations on bags each of them holds
no more diagnostics than its limit, which lies between 1 and 65535, is shown as it is and is not
lowered by whatever is done next.  A diagnostic is said to have found room exactly if it was put in
at the end, and otherwise the bag is as it was.  Merging a bag with another, or with itself, leaves
exactly the first 65535 diagnostics of both, one list behind the other, and leaves the other bags
alone; merging with none changes nothing. -/
theorem bags_stay_within_limits (ops : List BagOp) :
    (∀ b ∈ BagOp.run ops,
      b.size ≤ b.limit ∧ 1 ≤ b.limit ∧ b.limit ≤ 65535 ∧ b.cap.toNat = b.limit ∧
      ∀ d, ((b.offer d).1 = true ↔ (b.offer d).2.toList = b.toList ++ [d]) ∧
        ((b.offer d).1 = false ↔ (b.offer d).2 = b)) ∧
    (∀ (i : Nat) (b : Bag) (more : List BagOp), (BagOp.run ops)[i]? = some b →
      ∃ b', (BagOp.run (ops ++ more))[i]? = some b' ∧ b.limit ≤ b'.limit) ∧
    ∀ (i : Nat) (a : Bag), (BagOp.run ops)[i]? = some a →
      BagOp.run (ops ++ [.merge i none]) = BagOp.run ops ∧
      ∀ (j : Nat) (b : Bag), (BagOp.run ops)[j]? = some b →
        ∃ c, (BagOp.run (ops ++ [.merge i (some j)]))[i]? = some c ∧
          c.toList = (a.toList ++ b.toList).take 65535 ∧
          ∀ k, k ≠ i → (BagOp.run (ops ++ [.merge i (some j)]))[k]? = (BagOp.run ops)[k]? := by
  refine ⟨fun b hb => ?_, fun i b more hb => BagOp.limit_le_run hb more, fun i a ha => ?_⟩
  · have h := BagOp.within_run ops b hb
    exact ⟨h.size_le, h.limit_pos, h.limit_le, h.toNat_cap, b.offer_iff⟩
  · have h := BagOp.within_run ops a (List.mem_of_getElem? ha)
    refine ⟨?_, fun j b hb => ⟨a.merge b, ?_, h.toList_merge b, fun k hk => ?_⟩⟩
    · rw [BagOp.run_concat]
      exact List.modify_id i _
    · rw [BagOp.run_concat, BagOp.getElem?_merge, ha, hb, Option.map_some, if_pos rfl]
      rfl
    · rw [BagOp.run_concat, BagOp.getElem?_merge]
      simp [hk.symm]

/-- A finding about the start of a file. -/
def firstFinding : Diagnostic := .error .invalidStatement ⟨0, 0, 1⟩ "Invalid start to statement."

/-- A bag for one diagnostic, which is offered two. -/
def fillOne : List BagOp := [.new 1, .add 0 firstFinding, .add 0 firstFinding]

/-- The second diagnostic finds no room, but merging the bag with itself makes some. -/
theorem bags_stay_within_limits_itself :
    (BagOp.run fillOne)[0]? = some ⟨#[firstFinding], 1⟩ ∧
      ((⟨#[firstFinding], 1⟩ : Bag).offer firstFinding).1 = false ∧
      ∃ c, (BagOp.run (fillOne ++ [.merge 0 (some 0)]))[0]? = some c ∧
        c.toList = [firstFinding, firstFinding] ∧ 1 ≤ c.limit := by
  have hbag : (BagOp.run fillOne)[0]? = some ⟨#[firstFinding], 1⟩ := rfl
  obtain ⟨hbags, hgrow, hmerge⟩ := bags_stay_within_limits fillOne
  obtain ⟨c, hc, hlist, -⟩ := (hmerge 0 _ hbag).2 0 _ hbag
  obtain ⟨c', hc', hle⟩ := hgrow 0 _ [.merge 0 (some 0)] hbag
  obtain rfl : c' = c := Option.some.inj (hc'.symm.trans hc)
  have hoffer := (hbags _ (List.mem_of_getElem? hbag)).2.2.2.2 firstFinding
  exact ⟨hbag, hoffer.2.2 rfl, c', hc, hlist, hle⟩

end Tarjuman
