/-
# Nonstarters at the ends of a character

How many nonstarters the full compatibility decomposition of a character begins
and ends with, by Unicode 15.0.  A character that composes with the one before it
counts as a nonstarter.  Text is kept safe for streaming by these counts: see
`Normal`.
-/

import Tarjuman.Unicode.Runs

namespace Tarjuman
namespace Unicode

set_option maxRecDepth 8000

/-- The leading and trailing counts, and the characters with these. -/
def nonstarterCounts : List ((Nat × Nat) × List (Nat × Nat)) :=
  [((0,1),[(168,1), (6,1), (4,1), (3,1), (7,6), (1,9), (1,6), (2,5), (2,6), (1,9), (1,6), (2,5),
   (1,17), (2,20), (2,9), (3,4), (1,6), (4,6), (3,6), (2,18), (2,23), (33,2), (13,2), (19,3), (6,8),
   (13,2), (2,6), (2,3), (3,2), (2,2), (2,32), (2,2), (6,4), (4,2), (2,2), (164,6), (156,1), (9,1),
   (1,1), (1,3), (1,1), (1,2), (26,6), (26,5), (4,2), (43,2), (1,1), (3,1), (4,3), (10,1), (31,1),
   (22,2), (1,1), (3,1), (4,3), (23,2), (73,2), (13,4), (2,2), (2,6), (2,6), (2,12), (2,2), (296,5),
   (153,1), (1,1), (16,1), (597,1), (7,1), (2,1), (35,8), (107,2), (15,2), (1,1), (83,1), (2,1),
   (34,3), (2,1), (233,1), (2,2), (15,2), (54,1), (53,3), (123,1), (119,1), (6,2), (1,1), (127,3),
   (141,1), (1,1), (1,1), (407,1), (1,1), (173,1), (2783,1), (1,1), (1,1), (1,1), (1,1), (3,1),
   (40,1), (1,1), (2,2), (1,1), (700,8), (2,10), (4,4), (2,16), (2,8), (2,18), (8,8), (2,6), (6,14),
   (4,30), (1,1), (4,4), (20,6), (10,8), (20,4), (10,8), (6,2), (6,2), (6,2), (6,2), (6,2), (6,2),
   (6,2), (6,2), (6,2), (6,2), (6,2), (7,1), (6,2), (6,2), (6,14), (50,2), (1,1), (2,1), (1,6),
   (1,2), (2,1), (2,1), (1,5), (3,2), (4,1), (1,4), (4,2), (2,3), (1,5), (6,1), (2,1), (1,7),
   (24,1), (38,1), (236,1), (110,2), (18,1), (30,3), (52,1), (4,1), (2,1), (23,1), (1,1), (26,1),
   (2,1), (2,1), (1,1), (22,1), (1,1), (10,5), (2,2), (2,2), (6,2), (2,2), (2,2), (34,4), (48,4),
   (6,4), (2030,1), (1391,1), (1,1), (1,1), (1,1), (1,1), (1,1), (1,1), (1,1), (1,1), (1,1), (1,1),
   (1,1), (2,1), (1,1), (1,1), (6,2), (1,2), (1,2), (1,2), (1,2), (22,1), (6,2), (1,1), (13,1),
   (1,1), (1,1), (1,1), (1,1), (1,1), (1,1), (1,1), (1,1), (1,1), (1,1), (1,1), (2,1), (1,1), (1,1),
   (6,2), (1,2), (1,2), (1,2), (1,2), (22,1), (2,4), (3,1), (367,17), (133,1), (2,1), (8,1), (13,1),
   (2,1), (16,1), (8,1), (4,1), (10,1), (2,1), (51150,1), (1,1), (10,2), (2,9), (1,5), (1,1), (1,2),
   (1,2), (1,9), (85,2), (10,2), (169,3), (50,1), (72,1), (98,2), (267,4), (35,3), (1,1), (1,10),
   (1,12), (104,6), (232,1), (4278,1), (1,1), (14,1), (130,2), (539,2), (366,2), (1,1), (251,2),
   (892,1), (47141,2), (91,2), (8278,1)]), ((0,2),[(469,8), (1,4), (10,2), (12,2), (46,4), (2,2),
   (339,1), (10,1), (31,1), (2330,1), (273,1), (409,1), (1,1), (3726,2), (10,4), (4,2), (16,2),
   (8,2), (18,8), (8,2), (6,6), (14,4), (40,20), (6,10), (8,20), (4,10), (16,6), (2,6), (2,4),
   (4,4), (4,6), (2,6), (2,6), (2,6), (2,4), (4,4), (4,6), (3,1), (1,1), (1,1), (2,6), (2,6),
   (16,2), (6,2), (6,2), (6,2), (6,2), (6,2), (8,1), (1,1), (2,1), (9,2), (1,1), (2,1), (5,3),
   (2,2), (3,1), (5,3), (2,2), (3,1), (5,2), (3,1), (1,1), (2,1), (56116,2), (304,6), (142,3),
   (54379,5), (88,4)]), ((0,3),[(8066,6), (2,6), (2,6), (2,6), (2,6), (2,6)]), ((1,1),[(768,68),
   (1,10), (1,32), (275,5), (265,45), (1,1), (1,2), (1,2), (1,1), (72,11), (48,21), (16,1), (101,7),
   (2,6), (2,2), (1,4), (35,1), (30,27), (160,9), (9,1), (24,4), (1,9), (1,3), (1,5), (43,3),
   (60,8), (42,24), (1,29), (60,1), (16,1), (3,4), (103,1), (1,1), (14,1), (9,1), (38,1), (61,1),
   (16,1), (110,1), (16,1), (110,1), (1,1), (14,1), (8,2), (102,1), (14,1), (9,1), (100,1), (16,1),
   (7,2), (101,1), (5,1), (10,1), (7,2), (100,2), (1,1), (14,1), (9,1), (114,1), (4,1), (15,1),
   (88,3), (13,4), (108,3), (13,4), (76,2), (27,1), (1,1), (1,1), (55,2), (1,1), (5,4), (2,1),
   (1,3), (1,2), (62,1), (103,1), (8,1), (1,2), (82,1), (211,21), (49,28), (410,3), (948,2), (30,1),
   (157,1), (10,1), (203,1), (143,3), (219,2), (71,1), (20,8), (2,1), (48,14), (1,16), (101,2),
   (14,1), (38,9), (54,2), (58,1), (11,2), (67,1), (152,3), (1,13), (1,7), (4,1), (6,1), (3,2),
   (198,64), (720,13), (4,1), (3,12), (3070,3), (141,1), (96,32), (554,6), (105,2), (152,1), (1,2),
   (3,6), (15,21), (29963,1), (4,10), (32,2), (80,2), (276,1), (37,1), (151,1), (27,18), (57,3),
   (37,1), (95,1), (12,1), (239,1), (1,3), (2,2), (5,2), (1,1), (52,1), (246,1), (20272,1),
   (769,16), (366,2), (3,1), (1,2), (3,6), (18,6), (2,6), (2,6), (2,3), (544,1), (226,1), (149,5),
   (1682,1), (1,1), (40,3), (4,1), (165,2), (573,4), (387,2), (80,3), (70,11), (49,4), (192,1),
   (41,1), (14,1), (57,2), (69,3), (36,1), (11,2), (62,1), (76,1), (9,1), (106,2), (178,2), (80,2),
   (1,1), (14,1), (9,1), (14,7), (3,5), (205,1), (3,1), (23,1), (81,1), (9,1), (2,1), (4,2),
   (235,1), (15,2), (126,1), (118,2), (115,1), (269,2), (245,1), (12,2), (4,1), (156,1), (83,1),
   (18,1), (81,1), (421,1), (258,1), (1,2), (81,1), (425,2), (19373,5), (59,7), (1209,2), (19628,1),
   (5318,5), (3,6), (8,8), (2,7), (30,4), (148,3), (3515,7), (1,17), (2,7), (1,2), (1,5), (100,1),
   (160,7), (375,1), (61,4), (508,4), (992,7), (109,7)]), ((2,2),[(836,1), (3118,1), (1,1),
   (11,1)])]

/-- The numbers of leading and trailing nonstarters of a code point.  A Hangul
syllable ends with one or two that compose. -/
def nonstarters (n : Nat) : Nat × Nat :=
  if n < 0xA0 then (0, 0)
  else if 0xAC00 ≤ n && n < 0xD7A4 then (0, if (n - 0xAC00) % 28 = 0 then 1 else 2)
  else (valueIn? nonstarterCounts n).getD (0, 0)

end Unicode
end Tarjuman
