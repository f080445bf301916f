/-
# Runs of code points

The tables of properties list runs of code points.  Each run is given by the number of code
points that are passed over since the run before it and by its own length.
-/

namespace Tarjuman
namespace Unicode

/-- The code point lies in one of the runs. -/
def inRuns : List (Nat × Nat) → Nat → Bool
  | [], _ => false
  | (skipped, size) :: runs, n =>
    if n < skipped + size then skipped ≤ n else inRuns runs (n - (skipped + size))

/-- The first value in whose runs the code point lies. -/
def valueIn? {α : Type} (table : List (α × List (Nat × Nat))) (n : Nat) : Option α :=
  (table.find? fun (_, runs) => inRuns runs n).map (·.1)

end Unicode
end Tarjuman
