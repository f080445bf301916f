/-
# Digests of texts

The SHA-256 digest of a text: padding to blocks of sixty-four bytes, and for each
block sixty-four rounds that mix a message schedule into eight words.
-/

import Tarjuman.Text.Number

namespace Tarjuman

/-- A digest of thirty-two bytes. -/
structure Digest where
  bytes : Text
deriving DecidableEq, Repr, Inhabited

namespace Digest

/-- The eight words that a block changes. -/
structure Words where
  a : UInt32
  b : UInt32
  c : UInt32
  d : UInt32
  e : UInt32
  f : UInt32
  g : UInt32
  h : UInt32

/-- The words before the first block. -/
def initial : Words :=
  ⟨0x6a09e667, 0xbb67ae85, 0x3c6ef372, 0xa54ff53a, 0x510e527f, 0x9b05688c, 0x1f83d9ab, 0x5be0cd19⟩

/-- The constant of each round. -/
def roundConstants : List UInt32 :=
  [0x428a2f98, 0x71374491, 0xb5c0fbcf, 0xe9b5dba5, 0x3956c25b, 0x59f111f1, 0x923f82a4, 0xab1c5ed5,
   0xd807aa98, 0x12835b01, 0x243185be, 0x550c7dc3, 0x72be5d74, 0x80deb1fe, 0x9bdc06a7, 0xc19bf174,
   0xe49b69c1, 0xefbe4786, 0x0fc19dc6, 0x240ca1cc, 0x2de92c6f, 0x4a7484aa, 0x5cb0a9dc, 0x76f988da,
   0x983e5152, 0xa831c66d, 0xb00327c8, 0xbf597fc7, 0xc6e00bf3, 0xd5a79147, 0x06ca6351, 0x14292967,
   0x27b70a85, 0x2e1b2138, 0x4d2c6dfc, 0x53380d13, 0x650a7354, 0x766a0abb, 0x81c2c92e, 0x92722c85,
   0xa2bfe8a1, 0xa81a664b, 0xc24b8b70, 0xc76c51a3, 0xd192e819, 0xd6990624, 0xf40e3585, 0x106aa070,
   0x19a4c116, 0x1e376c08, 0x2748774c, 0x34b0bcb5, 0x391c0cb3, 0x4ed8aa4a, 0x5b9cca4f, 0x682e6ff3,
   0x748f82ee, 0x78a5636f, 0x84c87814, 0x8cc70208, 0x90befffa, 0xa4506ceb, 0xbef9a3f7, 0xc67178f2]

/-- The bits moved around by `n` places to the right. -/
def rotate (x n : UInt32) : UInt32 := (x >>> n) ||| (x <<< (32 - n))

/-- The word of four bytes, the highest first. -/
def word (a b c d : UInt8) : UInt32 :=
  (a.toUInt32 <<< 24) ||| (b.toUInt32 <<< 16) ||| (c.toUInt32 <<< 8) ||| d.toUInt32

/-- The words of a block. -/
def wordsOf : Text → List UInt32
  | a :: b :: c :: d :: r => word a b c d :: wordsOf r
  | _ => []

/-- The bytes of a word, the highest first. -/
def bytesOf (w : UInt32) : Text :=
  [(w >>> 24).toUInt8, (w >>> 16).toUInt8, (w >>> 8).toUInt8, w.toUInt8]

/-- `n` more words of a message schedule, whose words are listed from the last to
the first. -/
def extend : Nat → List UInt32 → List UInt32
  | 0, ws => ws
  | n + 1, ws =>
    let at' (i : Nat) : UInt32 := ws.getD i 0
    let x := at' 14
    let y := at' 1
    let s := rotate x 7 ^^^ rotate x 18 ^^^ (x >>> 3)
    let t := rotate y 17 ^^^ rotate y 19 ^^^ (y >>> 10)
    extend n ((at' 15 + s + at' 6 + t) :: ws)

/-- One round with its constant and its word of the schedule. -/
def round (v : Words) (k w : UInt32) : Words :=
  let s := rotate v.e 6 ^^^ rotate v.e 11 ^^^ rotate v.e 25
  let choice := (v.e &&& v.f) ^^^ (~~~v.e &&& v.g)
  let t := v.h + s + choice + k + w
  let s' := rotate v.a 2 ^^^ rotate v.a 13 ^^^ rotate v.a 22
  let majority := (v.a &&& v.b) ^^^ (v.a &&& v.c) ^^^ (v.b &&& v.c)
  ⟨t + s' + majority, v.a, v.b, v.c, v.d + t, v.e, v.f, v.g⟩

/-- The words after a block. -/
def compress (v : Words) (block : Text) : Words :=
  let schedule := (extend 48 (wordsOf block).reverse).reverse
  let u := (roundConstants.zip schedule).foldl (fun u (k, w) => round u k w) v
  ⟨v.a + u.a, v.b + u.b, v.c + u.c, v.d + u.d, v.e + u.e, v.f + u.f, v.g + u.g, v.h + u.h⟩

/-- The words after `n` blocks of a text. -/
def absorb : Nat → Words → Text → Words
  | 0, v, _ => v
  | n + 1, v, s => absorb n (compress v (s.take 64)) (s.drop 64)

/-- The length of a text in bits, in eight bytes. -/
def sizeBytes (s : Text) : Text :=
  let bits := 8 * s.length
  bytesOf (UInt32.ofNat (bits / 0x100000000)) ++ bytesOf (UInt32.ofNat bits)

/-- The text with its end marked, filled up to blocks, and its length at the end. -/
def padded (s : Text) : Text :=
  s ++ 0x80 :: List.replicate ((119 - s.length % 64) % 64) 0 ++ sizeBytes s

/-- The digest of a text. -/
def ofText (s : Text) : Digest :=
  let p := padded s
  let v := absorb (p.length / 64) initial p
  ⟨[v.a, v.b, v.c, v.d, v.e, v.f, v.g, v.h].flatMap bytesOf⟩

/-- The digest in hexadecimal digits. -/
def hex (d : Digest) : Text := Text.hexOfBytes d.bytes

end Digest
end Tarjuman
