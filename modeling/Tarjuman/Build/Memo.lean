/-
# Payloads in memory

A memo keeps at most a given number of payloads and drops the one that has been
there longest.  Which one that is, it reads off the order in which the keys came.
-/

import Tarjuman.Build.Payload

namespace Tarjuman

/-- Payloads by key. -/
structure Memo where
  limit : Nat
  entries : List (Digest × Payload) := []
  /-- The keys, the one that came first in front. -/
  order : List Digest := []
  /-- How many look-ups found something. -/
  hits : Nat := 0
  /-- How many look-ups there were. -/
  lookups : Nat := 0

namespace Memo

/-- The number of payloads when no limit is given. -/
def usualLimit : Nat := 256

/-- An empty memo. -/
def new (limit : Int) : Memo := { limit := if limit ≤ 0 then usualLimit else limit.toNat }

/-- The number of payloads. -/
def size (m : Memo) : Nat := m.entries.length

/-- The payload under a key. -/
def find? (m : Memo) (key : Digest) : Option Payload :=
  (m.entries.find? (·.1 == key)).map (·.2)

/-- Look a key up and count that. -/
def get (m : Memo) (key : Digest) : Option Payload × Memo :=
  let found := m.find? key
  (found, { m with lookups := m.lookups + 1, hits := m.hits + if found.isSome then 1 else 0 })

/-- Drop the key that came first. -/
def evict (m : Memo) : Memo :=
  match m.order with
  | [] => m
  | oldest :: rest => { m with entries := m.entries.filter (·.1 ≠ oldest), order := rest }

/-- Keep a payload.  A key that is there keeps its age; a new one takes the place
of the oldest when there is no room. -/
def put (m : Memo) (key : Digest) (p : Payload) : Memo :=
  if (m.find? key).isSome then
    { m with entries := m.entries.map fun e => if e.1 = key then (key, p) else e }
  else
    let m := if m.limit ≤ m.order.length then m.evict else m
    { m with entries := m.entries ++ [(key, p)], order := m.order ++ [key] }

end Memo
end Tarjuman
