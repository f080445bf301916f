/-
# Cells on a terminal

How many cells a character takes up: two for wide characters, none for marks and
for what is not shown, one for all others.  Widths are by Unicode 15.1, with
ambiguous characters narrow.
-/

import Tarjuman.Unicode.Runs

namespace Tarjuman
namespace Unicode

set_option maxRecDepth 8000

/-- Wide and full-width characters. -/
def wideRuns : List (Nat × Nat) :=
  [(4352,96), (4538,2), (13,2), (190,4), (3,1), (2,1), (521,2), (21,2), (50,12), (43,1), (19,1),
   (13,1), (8,2), (17,2), (5,2), (8,1), (5,1), (21,1), (7,2), (1,1), (4,1), (2,1), (7,1), (4,2),
   (28,1), (35,1), (1,1), (4,3), (1,1), (61,3), (24,1), (14,1), (859,2), (51,1), (4,1), (810,26),
   (1,89), (12,214), (26,79), (2,86), (2,103), (5,43), (1,94), (1,84), (11,48), (1,40), (8,7024),
   (64,22157), (3,55), (1177,29), (643,11172), (8540,512), (784,10), (22,35), (1,19), (1,4),
   (149,96), (127,7), (28665,5), (11,2), (14,6136), (8,1238), (42,9), (8935,4), (1,7), (1,2),
   (1,291), (15,1), (29,3), (2,1), (14,4), (8,396), (15624,1), (202,1), (190,1), (2,10), (101,3),
   (13,44), (4,9), (7,2), (14,6), (154,33), (12,9), (1,70), (1,22), (12,43), (4,5), (12,17), (3,1),
   (3,71), (1,1), (1,187), (2,63), (13,4), (1,24), (18,1), (26,2), (13,1), (86,85), (48,70), (6,1),
   (3,3), (2,3), (4,4), (11,2), (7,9), (227,12), (4,1), (283,47), (1,10), (1,185), (112,13), (3,9),
   (7,46), (1,7), (8,14), (4,9), (7,9), (1287,65534), (2,65534)]

/-- Marks whose name says that they combine. -/
def combiningRuns : List (Nat × Nat) :=
  [(768,112), (275,7), (865,9), (1036,1), (3,1), (238,1), (12,2), (1627,3), (1823,1), (48,31),
   (156,9), (588,64), (720,33), (3070,3), (238,32), (665,2), (30164,4), (1,10), (32,2), (80,2),
   (494,18), (21806,16), (973,1), (376,5), (2864,2), (153,11), (49,4), (890,2), (57,2), (41,7),
   (3,5), (22395,5), (25611,46), (2,23), (542,5), (3,6), (8,8), (2,7), (30,4), (148,3), (3515,7),
   (1,17), (2,7), (1,2), (1,5), (100,1), (2112,7)]

/-- Characters above U+0300 that are not shown. -/
def hiddenRuns : List (Nat × Nat) :=
  [(1807,1), (4347,4), (2044,5), (24,7), (59,6), (56975,1), (249,3), (2,2)]

/-- The number of cells of a code point. -/
def cells (n : Nat) : Nat :=
  if n < 0x20 || (0x7F ≤ n && n ≤ 0x9F) || n == 0xAD then 0
  else if n < 0x300 then 1
  else if inRuns hiddenRuns n || inRuns combiningRuns n then 0
  else if inRuns wideRuns n then 2
  else 1

end Unicode
end Tarjuman
