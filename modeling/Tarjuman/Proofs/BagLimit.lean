/-
# What a bag keeps

A bag takes diagnostics in until it is full and drops what comes later, whatever it
is.  So a bag that is filled in order holds the first ones of the list, as many as
its limit allows (`toList_ofList`), and filling one bag through another of the same
limit changes nothing (`take_append_take`).
-/

import Tarjuman.Diagnostic.Bag

namespace Tarjuman
namespace Bag

/-- The limit of a bag that is made with a given one. -/
def capacity (n : Int) : Nat := (new n).limit

/-- There is room for one diagnostic at least. -/
theorem capacity_pos (n : Int) : 0 < capacity n := by
  rw [capacity, new]
  dsimp only
  split
  · decide
  · omega

theorem toList_add (b : Bag) (d : Diagnostic) :
    (b.add d).toList = b.toList ++ [d].take (b.limit - b.size) := by
  rw [add]
  split
  · rename_i hfull
    have h : b.limit - b.size = 0 := Nat.sub_eq_zero_of_le (of_decide_eq_true hfull)
    rw [h, List.take_zero, List.append_nil]
  · rename_i hfull
    have h : ¬ b.limit ≤ b.size := fun hle => hfull (decide_eq_true hle)
    rw [List.take_of_length_le (by rw [List.length_singleton]; omega)]
    exact Array.toList_push

theorem size_eq_length (b : Bag) : b.size = b.toList.length := rfl

theorem limit_add (b : Bag) (d : Diagnostic) : (b.add d).limit = b.limit := by
  rw [add]
  split <;> rfl

theorem limit_addAll (b : Bag) (ds : List Diagnostic) : (b.addAll ds).limit = b.limit := by
  induction ds generalizing b with
  | nil => rfl
  | cons d r ih => exact (ih (b.add d)).trans (limit_add b d)

/-- A bag takes in as many diagnostics as there is room for. -/
theorem toList_addAll (b : Bag) (ds : List Diagnostic) :
    (b.addAll ds).toList = b.toList ++ ds.take (b.limit - b.size) := by
  induction ds generalizing b with
  | nil => rw [List.take_nil, List.append_nil]; rfl
  | cons d r ih =>
    have hstep : b.addAll (d :: r) = (b.add d).addAll r := rfl
    rw [hstep, ih, limit_add, size_eq_length, toList_add, List.length_append, List.append_assoc,
      ← size_eq_length]
    rcases Nat.eq_zero_or_pos (b.limit - b.size) with h | h
    · rw [h, List.take_zero, List.length_nil, Nat.add_zero, h]
      rfl
    · obtain ⟨k, hk⟩ := Nat.exists_eq_add_of_le h
      rw [hk, Nat.add_comm 1 k, List.take_succ_cons, List.take_succ_cons, List.take_nil,
        List.length_singleton, Nat.sub_add_eq, hk, Nat.add_sub_cancel_left]
      rfl

/-- A bag is its diagnostics and its limit. -/
theorem ext {a b : Bag} (hlist : a.toList = b.toList) (hlimit : a.limit = b.limit) : a = b := by
  cases a
  cases b
  exact congr (congrArg mk (Array.toList_inj.1 hlist)) hlimit

theorem addAll_append (b : Bag) (ds es : List Diagnostic) :
    (b.addAll ds).addAll es = b.addAll (ds ++ es) := List.foldl_append.symm

/-- **A bag filled in order holds the first diagnostics.** -/
theorem toList_ofList (n : Int) (ds : List Diagnostic) :
    (ofList n ds).toList = ds.take (capacity n) := toList_addAll (new n) ds

theorem limit_ofList (n : Int) (ds : List Diagnostic) : (ofList n ds).limit = capacity n :=
  limit_addAll (new n) ds

/-- Cutting a part of a list at the limit does not show once the whole is cut there. -/
theorem take_append_take {α : Type} (n : Nat) (a b c : List α) :
    (a ++ (b.take n ++ c)).take n = (a ++ (b ++ c)).take n := by
  have hb : min (n - a.length) n = n - a.length := by omega
  have hc : n - a.length - min n b.length = n - a.length - b.length := by omega
  rw [List.take_append, List.take_append, List.take_append, List.take_append, List.take_take,
    List.length_take, hb, hc]

/-- Some diagnostic is an error, said of the list. -/
theorem hasErrors_eq_any (b : Bag) : b.hasErrors = b.toList.any (·.isError) :=
  Array.any_toList.symm

end Bag
end Tarjuman
