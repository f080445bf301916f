/-
# What changed on a disk

The difference of two disks: the places that are gone and the entries that are new
or hold something else.  Every place comes after the places above it.
-/

import Tarjuman.Files.Disk

namespace Tarjuman
namespace Disk

/-- The places of `old` that are not in `d`, those below a place before it. -/
def gone (d old : Disk) : List Place :=
  let places := (old.entries.filter fun (p, _) => (d.get? p).isNone).map (·.1)
  places.mergeSort fun p q => q.length ≤ p.length

/-- The entries of `d` that `old` does not have at their places, those below a place
after it. -/
def changed (d old : Disk) : List (Place × DiskEntry) :=
  (d.entries.filter fun (p, e) => old.get? p ≠ some e).mergeSort fun p q =>
    p.1.length ≤ q.1.length

end Disk
end Tarjuman
