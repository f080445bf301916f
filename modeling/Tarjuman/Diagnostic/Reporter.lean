/-
# Reporters

What diagnostics are sent to, one after the other.  A reporter puts them into a bag,
keeps them all or drops them all; or it passes them on, to two reporters at once or
each finding once only.
-/

import Tarjuman.Diagnostic.Bag

namespace Tarjuman

/-- Something that takes diagnostics; `σ` is what it has made of them so far. -/
structure Reporter (σ : Type) where
  report : σ → Diagnostic → σ

namespace Reporter

variable {σ τ : Type}

/-- Send diagnostics one after the other. -/
def reportAll (r : Reporter σ) (s : σ) (ds : List Diagnostic) : σ := ds.foldl r.report s

/-- Puts diagnostics into a bag as far as there is room. -/
def bag : Reporter Bag := ⟨Bag.add⟩

/-- Keeps all diagnostics. -/
def journal : Reporter (Array Diagnostic) := ⟨Array.push⟩

/-- Drops all diagnostics. -/
def silent : Reporter Unit := ⟨fun _ _ => ()⟩

/-- Passes each diagnostic on to two reporters. -/
def tee (r : Reporter σ) (q : Reporter τ) : Reporter (σ × τ) :=
  ⟨fun s d => (r.report s.1 d, q.report s.2 d)⟩

/-- Passes on the first of several diagnostics that say the same; notes do not count.
Those that were passed on are remembered. -/
def once (r : Reporter σ) : Reporter (List Diagnostic × σ) :=
  ⟨fun s d => if s.1.any d.same then s else (d :: s.1, r.report s.2 d)⟩

end Reporter
end Tarjuman
