/-
# First in, first out

A memo keeps its payloads in one list and the order of its keys in another, and changes the two
apart.  They always agree (`Memo.Tidy`): the order names every key that has a payload, once, and
no more of them than the limit.

What a memo is for can be said without its order, by what it is asked and what it answers.  A
key comes in when it is kept while the memo does not have it, and from then on it ages
(`Memo.Entered`); it goes when an operation loses it (`Memo.Drops`).  The order lists the keys by
the time when they came in (`Memo.pairwise_order`), so the first of them is the one that has been
there longest (`Memo.head?_order_eq_some_iff`), and that one goes when a new key comes and there
is no room (`Memo.drops_iff`).
-/

import Mathlib.Algebra.Order.Ring.Nat
import Mathlib.Data.List.Induction
import Mathlib.Data.List.Nodup
import Mathlib.Data.Nat.SuccPred
import Tarjuman.Proofs.DamagedEntries

namespace Tarjuman

/-- What can be asked of a memo. -/
inductive MemoOp where
  | put (key : Digest) (p : Payload)
  | get (key : Digest)

/-- The operation looks a key up. -/
def MemoOp.isGet : MemoOp → Bool
  | .put .. => false
  | .get _ => true

namespace Memo

/-- The memo after an operation. -/
def step (m : Memo) : MemoOp → Memo
  | .put key p => m.put key p
  | .get key => (m.get key).2

/-- What is answered to the look-ups among operations. -/
def answers (m : Memo) : List MemoOp → List (Option Payload)
  | [] => []
  | .put key p :: ops => (m.put key p).answers ops
  | .get key :: ops => (m.get key).1 :: (m.get key).2.answers ops

/-- A new memo with a limit after operations. -/
def after (limit : Int) (ops : List MemoOp) : Memo := ops.foldl step (new limit)

/-- The operation loses a key that the memo has. -/
def Drops (m : Memo) (op : MemoOp) (key : Digest) : Prop :=
  (m.find? key).isSome ∧ (m.step op).find? key = none

/-! ## Payloads and order -/

/-- Payloads and order agree, and there are no more of them than the limit. -/
structure Tidy (m : Memo) : Prop where
  /-- No key is twice in the order. -/
  distinct : m.order.Nodup
  /-- Every key in the order has one payload, and there are no other payloads. -/
  stored : (m.entries.map (·.1)).Perm m.order
  bounded : m.order.length ≤ m.limit
  /-- There is room for at least one. -/
  positive : 0 < m.limit

variable {m : Memo} {key k : Digest} {p q : Payload}

theorem isSome_find?_iff : (m.find? k).isSome ↔ k ∈ m.entries.map (·.1) := by
  rw [find?, Option.isSome_map, List.find?_isSome, List.mem_map]
  simp only [beq_iff_eq]

theorem find?_eq_some_iff (h : (m.entries.map (·.1)).Nodup) :
    m.find? k = some p ↔ (k, p) ∈ m.entries := by
  refine ⟨mem_of_find?, fun hmem => ?_⟩
  obtain ⟨q, hq⟩ := Option.isSome_iff_exists.1 (isSome_find?_iff.2 (List.mem_map_of_mem hmem))
  -- Both payloads stand under one key, so they are at one place of the list.
  have hsame := List.inj_on_of_nodup_map h (mem_of_find? hq) hmem rfl
  rw [hq, (Prod.mk.inj hsame).2]

theorem Tidy.nodup_keys (h : m.Tidy) : (m.entries.map (·.1)).Nodup :=
  h.stored.nodup_iff.2 h.distinct

/-- **The order names exactly the keys that are found.** -/
theorem Tidy.mem_order_iff (h : m.Tidy) : k ∈ m.order ↔ (m.find? k).isSome := by
  rw [isSome_find?_iff, h.stored.mem_iff]

theorem Tidy.size_eq (h : m.Tidy) : m.size = m.order.length := by
  rw [size, ← h.stored.length_eq, List.length_map]

theorem tidy_new (limit : Int) : (new limit).Tidy := by
  refine ⟨List.nodup_nil, .nil, Nat.zero_le _, ?_⟩
  rw [new]
  dsimp only
  split
  · exact Nat.zero_lt_succ 255
  · omega

theorem evict_eq {oldest : Digest} {rest : List Digest} (horder : m.order = oldest :: rest) :
    m.evict = { m with entries := m.entries.filter (·.1 ≠ oldest), order := rest } := by
  rw [evict, horder]

/-- **What keeping a payload can do.**  The key is there and only its payload changes, or it is
new and comes last, behind all others or behind all but the first. -/
theorem Tidy.put_cases (h : m.Tidy) (key : Digest) (p : Payload) :
    ((m.find? key).isSome ∧ m.put key p =
      { m with entries := m.entries.map fun e => if e.1 = key then (key, p) else e }) ∨
    (m.find? key = none ∧ m.order.length < m.limit ∧ m.put key p =
      { m with entries := m.entries ++ [(key, p)], order := m.order ++ [key] }) ∨
    ∃ oldest rest, m.find? key = none ∧ m.order = oldest :: rest ∧ m.order.length = m.limit ∧
      m.put key p =
        { m with
          entries := m.entries.filter (·.1 ≠ oldest) ++ [(key, p)], order := rest ++ [key] } := by
  rw [put]
  by_cases hkey : (m.find? key).isSome
  · exact .inl ⟨hkey, if_pos hkey⟩
  · have hnone := Option.not_isSome_iff_eq_none.1 hkey
    rw [if_neg hkey]
    refine .inr ?_
    by_cases hfull : m.limit ≤ m.order.length
    · have heq : m.order.length = m.limit := Nat.le_antisymm h.bounded hfull
      obtain ⟨oldest, rest, horder⟩ : ∃ oldest rest, m.order = oldest :: rest :=
        List.exists_cons_of_length_pos (heq ▸ h.positive)
      refine .inr ⟨oldest, rest, hnone, horder, heq, ?_⟩
      rw [if_pos hfull, evict_eq horder]
    · refine .inl ⟨hnone, Nat.lt_of_not_le hfull, ?_⟩
      rw [if_neg hfull]

theorem not_mem_order (h : m.Tidy) (hkey : m.find? key = none) : key ∉ m.order := by
  rw [h.mem_order_iff, hkey]
  exact Bool.false_ne_true

/-- Dropping the payload of the first key leaves those of the others. -/
theorem perm_filter {oldest : Digest} {rest : List Digest} (h : m.Tidy)
    (horder : m.order = oldest :: rest) :
    ((m.entries.filter (·.1 ≠ oldest)).map (·.1)).Perm rest := by
  have hdistinct := h.distinct
  rw [horder, List.nodup_cons] at hdistinct
  have hfilter : (m.entries.filter (·.1 ≠ oldest)).map (·.1) =
      (m.entries.map (·.1)).filter (· ≠ oldest) := by
    rw [List.filter_map]
    rfl
  rw [hfilter]
  refine (h.stored.filter _).trans (List.Perm.of_eq ?_)
  rw [horder, List.filter_cons_of_neg (by simp)]
  refine List.filter_eq_self.2 fun k hk => ?_
  simpa using fun heq : k = oldest => hdistinct.1 (heq ▸ hk)

/-- **Payloads and order go on to agree** when a payload is kept. -/
theorem Tidy.put (h : m.Tidy) (key : Digest) (p : Payload) : (m.put key p).Tidy := by
  rcases h.put_cases key p with ⟨-, hput⟩ | ⟨hnone, hroom, hput⟩ |
    ⟨oldest, rest, hnone, horder, hfull, hput⟩
  · have hkeys : (m.entries.map fun e => if e.1 = key then (key, p) else e).map (·.1) =
        m.entries.map (·.1) := by
      rw [List.map_map]
      refine List.map_congr_left fun e _ => ?_
      by_cases he : e.1 = key <;> simp [he]
    rw [hput]
    exact ⟨h.distinct, hkeys ▸ h.stored, h.bounded, h.positive⟩
  · rw [hput]
    refine ⟨?_, ?_, ?_, h.positive⟩
    · dsimp only
      rw [← List.concat_eq_append]
      exact h.distinct.concat (not_mem_order h hnone)
    · rw [List.map_append]
      exact h.stored.append_right _
    · rw [List.length_append]
      exact hroom
  · have hnew := not_mem_order h hnone
    have hdistinct := h.distinct
    rw [horder] at hnew hdistinct hfull
    rw [hput]
    refine ⟨?_, ?_, ?_, h.positive⟩
    · dsimp only
      rw [← List.concat_eq_append]
      exact (List.nodup_cons.1 hdistinct).2.concat fun hk => hnew (List.mem_cons_of_mem _ hk)
    · rw [List.map_append]
      exact (perm_filter h horder).append_right _
    · rw [List.length_append]
      exact Nat.le_of_eq hfull

theorem Tidy.step (h : m.Tidy) (op : MemoOp) : (m.step op).Tidy := by
  cases op with
  | put key p => exact h.put key p
  | get key => exact ⟨h.distinct, h.stored, h.bounded, h.positive⟩

/-! ## What an operation loses -/

/-- What is found under other keys after a payload was kept. -/
theorem Tidy.find?_put_of_ne (h : m.Tidy) (hk : k ≠ key) :
    (m.put key p).find? k =
      if m.find? key = none ∧ m.order.length = m.limit ∧ m.order.head? = some k then none
      else m.find? k := by
  have hkeys := (h.put key p).nodup_keys
  refine Option.ext fun q => ?_
  rw [find?_eq_some_iff hkeys]
  rcases h.put_cases key p with ⟨hsome, hput⟩ | ⟨hnone, hroom, hput⟩ |
    ⟨oldest, rest, hnone, horder, hfull, hput⟩
  · have hfound : m.find? key ≠ none := Option.isSome_iff_ne_none.1 hsome
    rw [if_neg fun hc => hfound hc.1, find?_eq_some_iff h.nodup_keys, hput, List.mem_map]
    constructor
    · rintro ⟨e, he, heq⟩
      split at heq
      · exact absurd (congrArg Prod.fst heq).symm hk
      · exact heq ▸ he
    · exact fun he => ⟨_, he, if_neg hk⟩
  · rw [if_neg fun hc => Nat.ne_of_lt hroom hc.2.1, find?_eq_some_iff h.nodup_keys, hput]
    simp [hk]
  · rw [hput, List.mem_append, List.mem_filter, List.mem_singleton]
    by_cases hold : oldest = k
    · rw [if_pos ⟨hnone, hfull, by rw [horder, hold]; rfl⟩]
      simp [hold, hk]
    · rw [if_neg fun hc => hold (by simpa [horder] using hc.2.2), find?_eq_some_iff h.nodup_keys]
      simp [Ne.symm hold, hk]

/-- **Keeping a payload loses a key exactly if** its own key is new, there is no room, and the
lost one is the first in the order. -/
theorem Tidy.drops_put_iff (h : m.Tidy) :
    m.Drops (.put key p) k ↔
      m.find? key = none ∧ m.order.length = m.limit ∧ m.order.head? = some k := by
  constructor
  · rintro ⟨hsome, hlost⟩
    rw [Memo.step] at hlost
    have hk : k ≠ key := by
      rintro rfl
      rw [find?_put] at hlost
      cases hlost
    rw [h.find?_put_of_ne hk] at hlost
    by_contra hc
    rw [if_neg hc] at hlost
    rw [hlost] at hsome
    cases hsome
  · intro hc
    have hmem : k ∈ m.order := List.mem_of_head? hc.2.2
    have hk : k ≠ key := fun heq => not_mem_order h hc.1 (heq ▸ hmem)
    exact ⟨h.mem_order_iff.1 hmem, (h.find?_put_of_ne hk).trans (if_pos hc)⟩

theorem not_drops_get (m : Memo) (key k : Digest) : ¬ m.Drops (.get key) k := by
  rintro ⟨hsome, hlost⟩
  have hsame : (m.step (.get key)).find? k = m.find? k := rfl
  rw [← hsame, hlost] at hsome
  cases hsome

/-- An operation that keeps nothing under a key leaves its payload or loses it. -/
theorem Tidy.find?_step_eq_some_iff (h : m.Tidy) {op : MemoOp} (hop : ∀ q, op ≠ .put k q) :
    (m.step op).find? k = some p ↔ m.find? k = some p ∧ ¬ m.Drops op k := by
  cases op with
  | get key => exact (and_iff_left (not_drops_get m key k)).symm
  | put key q =>
    have hk : k ≠ key := fun heq => hop q (heq ▸ rfl)
    rw [h.drops_put_iff, Memo.step, h.find?_put_of_ne hk]
    split <;> simp_all

/-! ## Along a run -/

section Run

variable {limit : Int} {ops : List MemoOp} {op : MemoOp} {i : Nat}

theorem after_concat (limit : Int) (ops : List MemoOp) (op : MemoOp) :
    after limit (ops ++ [op]) = (after limit ops).step op := by
  rw [after, List.foldl_append]
  rfl

/-- **Payloads and order agree after any operations.** -/
theorem tidy_after (limit : Int) (ops : List MemoOp) : (after limit ops).Tidy := by
  induction ops using List.reverseRecOn with
  | nil => exact tidy_new limit
  | append_singleton ops op ih =>
    rw [after_concat]
    exact ih.step op

/-- A key came in with operation number `i` and is there since. -/
structure Entered (limit : Int) (ops : List MemoOp) (k : Digest) (i : Nat) : Prop where
  kept : ∃ p, ops[i]? = some (.put k p)
  absent : (after limit (ops.take i)).find? k = none
  stays : ∀ j, i < j → j ≤ ops.length → ((after limit (ops.take j)).find? k).isSome

/-- No other key has been there as long. -/
def Oldest (limit : Int) (ops : List MemoOp) (k : Digest) : Prop :=
  ∃ i, Entered limit ops k i ∧ ∀ k' i', Entered limit ops k' i' → i ≤ i'

theorem Entered.lt_length (h : Entered limit ops k i) : i < ops.length := by
  obtain ⟨p, hp⟩ := h.kept
  exact (List.getElem?_eq_some_iff.1 hp).1

theorem Entered.isSome (h : Entered limit ops k i) : ((after limit ops).find? k).isSome := by
  have hlast := h.stays ops.length h.lt_length (Nat.le_refl _)
  rwa [List.take_length] at hlast

/-- A key that is there came in once. -/
theorem Entered.unique {i' : Nat} (h : Entered limit ops k i) (h' : Entered limit ops k i') :
    i = i' := by
  have hnot : ∀ {i i' : Nat}, Entered limit ops k i → Entered limit ops k i' → ¬ i < i' := by
    intro i i' h h' hlt
    have hsome := h.stays i' hlt (Nat.le_of_lt h'.lt_length)
    rw [h'.absent] at hsome
    cases hsome
  exact Nat.le_antisymm (Nat.le_of_not_lt (hnot h' h)) (Nat.le_of_not_lt (hnot h h'))

/-- **What one more operation does to the ages**: a key that is still there keeps its own, and
a key that is kept while it is not there comes in. -/
theorem entered_concat_iff : Entered limit (ops ++ [op]) k i ↔
    (Entered limit ops k i ∧ ((after limit (ops ++ [op])).find? k).isSome) ∨
      (i = ops.length ∧ (∃ p, op = .put k p) ∧ (after limit ops).find? k = none) := by
  constructor
  · intro h
    have hlen := h.lt_length
    rw [List.length_append, List.length_singleton] at hlen
    obtain ⟨p, hp⟩ := h.kept
    have habsent := h.absent
    rcases Nat.lt_or_eq_of_le (Nat.le_of_lt_succ hlen) with hlt | rfl
    · refine .inl ⟨⟨⟨p, ?_⟩, ?_, fun j hij hj => ?_⟩, h.isSome⟩
      · rwa [List.getElem?_append_left hlt] at hp
      · rwa [List.take_append_of_le_length (Nat.le_of_lt hlt)] at habsent
      · have hsome := h.stays j hij (by rw [List.length_append]; omega)
        rwa [List.take_append_of_le_length hj] at hsome
    · rw [List.getElem?_concat_length] at hp
      rw [List.take_left] at habsent
      exact .inr ⟨rfl, ⟨p, Option.some.inj hp⟩, habsent⟩
  · rintro (⟨h, hsome⟩ | ⟨rfl, ⟨p, rfl⟩, hnone⟩)
    · obtain ⟨p, hp⟩ := h.kept
      have hlt := h.lt_length
      refine ⟨⟨p, by rwa [List.getElem?_append_left hlt]⟩, ?_, fun j hij hj => ?_⟩
      · rw [List.take_append_of_le_length (Nat.le_of_lt hlt)]
        exact h.absent
      · rw [List.length_append, List.length_singleton] at hj
        rcases Nat.lt_or_eq_of_le hj with hlt | rfl
        · have hle : j ≤ ops.length := Nat.le_of_lt_succ hlt
          rw [List.take_append_of_le_length hle]
          exact h.stays j hij hle
        · rwa [List.take_of_length_le (by simp)]
    · refine ⟨⟨p, List.getElem?_concat_length⟩, by rwa [List.take_left], fun j hij hj => ?_⟩
      rw [List.take_of_length_le (by simpa using hij), after_concat, Memo.step, find?_put]
      rfl

/-- Keeping a payload under a key that is there changes no age. -/
theorem entered_concat_of_isSome (hsome : ((after limit ops).find? key).isSome) :
    Entered limit (ops ++ [.put key p]) k i ↔ Entered limit ops k i := by
  have hnone : (after limit ops).find? key ≠ none := Option.isSome_iff_ne_none.1 hsome
  rw [entered_concat_iff]
  constructor
  · rintro (⟨h, -⟩ | ⟨-, ⟨q, hq⟩, habsent⟩)
    · exact h
    · cases hq
      exact absurd habsent hnone
  · intro h
    refine .inl ⟨h, ?_⟩
    rw [after_concat, Option.isSome_iff_ne_none]
    intro hlost
    have hdrops : (after limit ops).Drops (.put key p) k := ⟨h.isSome, hlost⟩
    exact hnone ((tidy_after limit ops).drops_put_iff.1 hdrops).1

/-- What is in the order after one more operation was there before or is kept by it. -/
theorem mem_order_concat (hk : k ∈ (after limit (ops ++ [op])).order) :
    k ∈ (after limit ops).order ∨ ∃ p, op = .put k p := by
  have h := tidy_after limit ops
  rw [after_concat] at hk
  cases op with
  | get key => exact .inl hk
  | put key p =>
    by_cases heq : k = key
    · exact .inr ⟨p, heq ▸ rfl⟩
    · refine .inl (h.mem_order_iff.2 ?_)
      have hsome := (h.put key p).mem_order_iff.1 hk
      rw [h.find?_put_of_ne heq] at hsome
      split at hsome
      · cases hsome
      · exact hsome

/-- Every key in the order came in at some time. -/
theorem exists_entered (hk : k ∈ (after limit ops).order) : ∃ i, Entered limit ops k i := by
  induction ops using List.reverseRecOn with
  | nil => cases hk
  | append_singleton ops op ih =>
    have hsome := (tidy_after limit (ops ++ [op])).mem_order_iff.1 hk
    by_cases hold : k ∈ (after limit ops).order
    · obtain ⟨i, hi⟩ := ih hold
      exact ⟨i, entered_concat_iff.2 (.inl ⟨hi, hsome⟩)⟩
    · obtain ⟨p, rfl⟩ := (mem_order_concat hk).resolve_left hold
      have hnone : (after limit ops).find? k = none := by
        rwa [(tidy_after limit ops).mem_order_iff, Option.not_isSome_iff_eq_none] at hold
      exact ⟨ops.length, entered_concat_iff.2 (.inr ⟨rfl, ⟨p, rfl⟩, hnone⟩)⟩

/-- **The order lists the keys by the time when they came in.** -/
theorem pairwise_order (limit : Int) (ops : List MemoOp) :
    (after limit ops).order.Pairwise fun a b =>
      ∀ i j, Entered limit ops a i → Entered limit ops b j → i < j := by
  induction ops using List.reverseRecOn with
  | nil => exact .nil
  | append_singleton ops op ih =>
    have h := tidy_after limit ops
    have hold : ∀ {k i}, k ∈ (after limit ops).order → Entered limit (ops ++ [op]) k i →
        Entered limit ops k i := by
      intro k i hk hi
      rcases entered_concat_iff.1 hi with ⟨hi, -⟩ | ⟨-, -, hnone⟩
      · exact hi
      · exact absurd hk (not_mem_order h hnone)
    have hkept : (after limit ops).order.Pairwise fun a b =>
        ∀ i j, Entered limit (ops ++ [op]) a i → Entered limit (ops ++ [op]) b j → i < j :=
      ih.imp_of_mem fun ha hb hab i j hi hj => hab i j (hold ha hi) (hold hb hj)
    rw [after_concat]
    cases op with
    | get key => exact hkept
    | put key p =>
      -- The new key came in with the last operation, the others before it.
      have hlast : ∀ {a}, (after limit ops).find? key = none → a ∈ (after limit ops).order →
          ∀ i j, Entered limit (ops ++ [.put key p]) a i →
            Entered limit (ops ++ [.put key p]) key j → i < j := by
        intro a hnone ha i j hi hj
        rcases entered_concat_iff.1 hj with ⟨hj, -⟩ | ⟨rfl, -, -⟩
        · have hsome := hj.isSome
          rw [hnone] at hsome
          cases hsome
        · exact (hold ha hi).lt_length
      rw [Memo.step]
      rcases h.put_cases key p with ⟨-, hput⟩ | ⟨hnone, -, hput⟩ |
        ⟨oldest, rest, hnone, horder, -, hput⟩
      · rw [hput]
        exact hkept
      · rw [hput]
        exact List.pairwise_append.2 ⟨hkept, List.pairwise_singleton _ _, fun a ha b hb =>
          List.mem_singleton.1 hb ▸ hlast hnone ha⟩
      · rw [horder] at hkept hlast
        rw [hput]
        exact List.pairwise_append.2 ⟨hkept.of_cons, List.pairwise_singleton _ _, fun a ha b hb =>
          List.mem_singleton.1 hb ▸ hlast hnone (List.mem_cons_of_mem _ ha)⟩

/-- **The first key in the order is the one that has been there longest.** -/
theorem head?_order_eq_some_iff :
    (after limit ops).order.head? = some k ↔ Oldest limit ops k := by
  have h := tidy_after limit ops
  have hpairs := pairwise_order limit ops
  constructor
  · intro hhead
    obtain ⟨rest, horder⟩ := List.head?_eq_some_iff.1 hhead
    obtain ⟨i, hi⟩ := exists_entered (List.mem_of_head? hhead)
    refine ⟨i, hi, fun k' i' hi' => ?_⟩
    have hmem := h.mem_order_iff.2 hi'.isSome
    rw [horder] at hmem hpairs
    rcases List.mem_cons.1 hmem with rfl | hmem
    · exact Nat.le_of_eq (hi.unique hi')
    · exact Nat.le_of_lt (List.rel_of_pairwise_cons hpairs hmem i i' hi hi')
  · rintro ⟨i, hi, hmin⟩
    have hmem := h.mem_order_iff.2 hi.isSome
    obtain ⟨a, rest, horder⟩ := List.exists_cons_of_ne_nil (List.ne_nil_of_mem hmem)
    obtain ⟨j, hj⟩ := exists_entered (k := a) (by rw [horder]; exact List.mem_cons_self)
    rw [horder] at hmem hpairs ⊢
    rcases List.mem_cons.1 hmem with rfl | hmem
    · rfl
    · exact absurd (hmin a j hj) (Nat.not_le_of_lt
        (List.rel_of_pairwise_cons hpairs hmem j i hj hi))

/-- **What is lost, and when**: a new key is kept in a full memo, and what goes is the key that
has been there longest. -/
theorem drops_iff : (after limit ops).Drops op k ↔
    (∃ key p, op = .put key p ∧ (after limit ops).find? key = none) ∧
      (after limit ops).size = (after limit ops).limit ∧ Oldest limit ops k := by
  have h := tidy_after limit ops
  rw [h.size_eq, ← head?_order_eq_some_iff]
  cases op with
  | get key =>
    refine iff_of_false (not_drops_get _ key k) ?_
    rintro ⟨⟨key', p, hop, -⟩, -⟩
    cases hop
  | put key p =>
    rw [h.drops_put_iff]
    refine and_congr_left' ⟨fun hnone => ⟨key, p, rfl, hnone⟩, ?_⟩
    rintro ⟨key', p', hop, hnone⟩
    cases hop
    exact hnone

/-- A payload was kept under a key by some operation, no later one kept another there, and none
lost the key. -/
def HeldSince (limit : Int) (ops : List MemoOp) (k : Digest) (p : Payload) : Prop :=
  ∃ i, ops[i]? = some (.put k p) ∧ ∀ j op, i < j → ops[j]? = some op →
    (∀ q, op ≠ .put k q) ∧ ¬ (after limit (ops.take j)).Drops op k

theorem heldSince_concat_iff : HeldSince limit (ops ++ [op]) k p ↔
    op = .put k p ∨
      HeldSince limit ops k p ∧ (∀ q, op ≠ .put k q) ∧ ¬ (after limit ops).Drops op k := by
  have hlast : (ops ++ [op])[ops.length]? = some op := List.getElem?_concat_length
  constructor
  · rintro ⟨i, hi, hlater⟩
    have hlen := (List.getElem?_eq_some_iff.1 hi).1
    rw [List.length_append, List.length_singleton] at hlen
    rcases Nat.lt_or_eq_of_le (Nat.le_of_lt_succ hlen) with hlt | rfl
    · have hend := hlater ops.length op hlt hlast
      rw [List.take_left] at hend
      rw [List.getElem?_append_left hlt] at hi
      refine .inr ⟨⟨i, hi, fun j op' hij hj => ?_⟩, hend⟩
      have hin := (List.getElem?_eq_some_iff.1 hj).1
      have hsame := hlater j op' hij (by rwa [List.getElem?_append_left hin])
      rwa [List.take_append_of_le_length (Nat.le_of_lt hin)] at hsame
    · exact .inl (Option.some.inj (hlast.symm.trans hi))
  · rintro (rfl | ⟨⟨i, hi, hlater⟩, hend⟩)
    · refine ⟨ops.length, hlast, fun j op' hij hj => ?_⟩
      have hin := (List.getElem?_eq_some_iff.1 hj).1
      rw [List.length_append, List.length_singleton] at hin
      omega
    · have hlt := (List.getElem?_eq_some_iff.1 hi).1
      refine ⟨i, by rwa [List.getElem?_append_left hlt], fun j op' hij hj => ?_⟩
      have hin := (List.getElem?_eq_some_iff.1 hj).1
      rw [List.length_append, List.length_singleton] at hin
      rcases Nat.lt_or_eq_of_le (Nat.le_of_lt_succ hin) with hjlt | rfl
      · rw [List.getElem?_append_left hjlt] at hj
        rw [List.take_append_of_le_length (Nat.le_of_lt hjlt)]
        exact hlater j op' hij hj
      · obtain rfl := Option.some.inj (hlast.symm.trans hj)
        rwa [List.take_left]

/-- **What is found under a key** is what was kept there last, unless the key was lost since. -/
theorem find?_after_eq_some_iff :
    (after limit ops).find? k = some p ↔ HeldSince limit ops k p := by
  induction ops using List.reverseRecOn with
  | nil =>
    refine iff_of_false (fun h => by cases h) ?_
    rintro ⟨i, hi, -⟩
    simp at hi
  | append_singleton ops op ih =>
    rw [heldSince_concat_iff, ← ih, after_concat]
    by_cases hop : ∃ q, op = .put k q
    · obtain ⟨q, rfl⟩ := hop
      rw [Memo.step, find?_put]
      simp
    · have hother : ∀ q, op ≠ .put k q := fun q hq => hop ⟨q, hq⟩
      rw [(tidy_after limit ops).find?_step_eq_some_iff hother]
      simp [hother]

end Run

/-! ## Counts -/

theorem unchanged_put (m : Memo) (key : Digest) (p : Payload) :
    (m.put key p).limit = m.limit ∧ (m.put key p).hits = m.hits ∧
      (m.put key p).lookups = m.lookups := by
  rw [put]
  split
  · exact ⟨rfl, rfl, rfl⟩
  · split
    · rw [evict]
      split <;> exact ⟨rfl, rfl, rfl⟩
    · exact ⟨rfl, rfl, rfl⟩

theorem limit_after (limit : Int) (ops : List MemoOp) :
    (after limit ops).limit = (new limit).limit := by
  induction ops using List.reverseRecOn with
  | nil => rfl
  | append_singleton ops op ih =>
    rw [after_concat, ← ih]
    cases op with
    | put key p => exact (unchanged_put _ key p).1
    | get key => rfl

/-- Look-ups are counted, and so are those that found something. -/
theorem counts_foldl (m : Memo) (ops : List MemoOp) :
    (ops.foldl step m).hits = m.hits + (m.answers ops).countP (·.isSome) ∧
      (ops.foldl step m).lookups = m.lookups + (m.answers ops).length := by
  induction ops generalizing m with
  | nil => exact ⟨rfl, rfl⟩
  | cons op ops ih =>
    cases op with
    | put key p =>
      obtain ⟨-, hhits, hlookups⟩ := unchanged_put m key p
      obtain ⟨ihhits, ihlookups⟩ := ih (m.put key p)
      rw [answers, ← hhits, ← hlookups]
      exact ⟨ihhits, ihlookups⟩
    | get key =>
      obtain ⟨ihhits, ihlookups⟩ := ih (m.get key).2
      rw [answers, List.countP_cons, List.length_cons]
      refine ⟨ihhits.trans ?_, ihlookups.trans ?_⟩
      · rw [get]
        dsimp only
        omega
      · rw [get]
        dsimp only
        omega

theorem length_answers (m : Memo) (ops : List MemoOp) :
    (m.answers ops).length = ops.countP (·.isGet) := by
  induction ops generalizing m with
  | nil => rfl
  | cons op ops ih =>
    cases op with
    | put key p => exact ih _
    | get key =>
      rw [answers, List.length_cons, ih, List.countP_cons_of_pos rfl]

end Memo

/-- **A memo is a map that forgets first what came first.**  For a new memo of any limit, after
any operations:

* the order has no key twice and names the keys that have a payload, no more of them than the
  limit, which is 256 if none is given;
* a look-up gives the payload that was kept last under the key, if no operation lost the key
  since, and nothing otherwise;
* an operation loses a key exactly if it keeps a new key while the memo is full, and then the
  one key that has been there longest;
* keeping a payload under a key that is there loses nothing and leaves all ages;
* all look-ups are counted, and those that found something. -/
theorem memo_forgets_first_in_first (limit : Int) (ops : List MemoOp) :
    ((Memo.after limit ops).order.Nodup ∧
      ((Memo.after limit ops).entries.map (·.1)).Perm (Memo.after limit ops).order ∧
      (Memo.after limit ops).size ≤ if limit ≤ 0 then 256 else limit.toNat) ∧
    (∀ k p, ((Memo.after limit ops).get k).1 = some p ↔ Memo.HeldSince limit ops k p) ∧
    (∀ op k, (Memo.after limit ops).Drops op k ↔
      (∃ key p, op = .put key p ∧ ((Memo.after limit ops).get key).1 = none) ∧
        ((Memo.after limit ops).size = if limit ≤ 0 then 256 else limit.toNat) ∧
        Memo.Oldest limit ops k) ∧
    (((Memo.after limit ops).size = if limit ≤ 0 then 256 else limit.toNat) →
      ∃! k, Memo.Oldest limit ops k) ∧
    (∀ key p, ((Memo.after limit ops).get key).1.isSome →
      (∀ k, ¬ (Memo.after limit ops).Drops (.put key p) k) ∧
        ∀ k i, Memo.Entered limit (ops ++ [.put key p]) k i ↔ Memo.Entered limit ops k i) ∧
    (Memo.after limit ops).hits = ((Memo.new limit).answers ops).countP (·.isSome) ∧
    (Memo.after limit ops).lookups = ops.countP (·.isGet) := by
  have h := Memo.tidy_after limit ops
  have hlimit : (Memo.after limit ops).limit = if limit ≤ 0 then 256 else limit.toNat :=
    Memo.limit_after limit ops
  obtain ⟨hhits, hlookups⟩ := Memo.counts_foldl (Memo.new limit) ops
  rw [Memo.length_answers] at hlookups
  rw [← hlimit]
  refine ⟨⟨h.distinct, h.stored, h.size_eq ▸ h.bounded⟩, fun k p => Memo.find?_after_eq_some_iff,
    fun op k => Memo.drops_iff, fun hfull => ?_, fun key p hsome => ⟨fun k hk => ?_, fun k i =>
      Memo.entered_concat_of_isSome hsome⟩, hhits.trans (Nat.zero_add _),
    hlookups.trans (Nat.zero_add _)⟩
  · rw [h.size_eq] at hfull
    obtain ⟨oldest, rest, horder⟩ := List.exists_cons_of_length_pos (hfull ▸ h.positive)
    have hhead : (Memo.after limit ops).order.head? = some oldest := by rw [horder]; rfl
    refine ⟨oldest, Memo.head?_order_eq_some_iff.1 hhead, fun k hk => ?_⟩
    exact (Option.some.inj (hhead.symm.trans (Memo.head?_order_eq_some_iff.2 hk))).symm
  · exact Option.isSome_iff_ne_none.1 hsome (h.drops_put_iff.1 hk).1

/-- With room for two, a key that is kept again is still the first to go. -/
example : (Memo.after 2 [.put ⟨[1]⟩ {}, .put ⟨[2]⟩ {}, .put ⟨[1]⟩ {}, .put ⟨[3]⟩ {}]).order =
    [⟨[2]⟩, ⟨[3]⟩] := by decide

end Tarjuman
