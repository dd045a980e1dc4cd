import ModuleBuild.Text.Hex

/-! # MD5

The 128-bit digest of a byte sequence.  The sequence is extended by one set bit,
zeros and its length in bits to a multiple of 64 bytes; each block of 64 bytes
then stirs a state of four words in 64 steps.
-/
namespace ModuleBuild
namespace Md5

/-- The constants of the 64 steps: the integer parts of `2 ^ 32 * |sin i|`. -/
def constants : List UInt32 :=
  [0xd76aa478, 0xe8c7b756, 0x242070db, 0xc1bdceee,
   0xf57c0faf, 0x4787c62a, 0xa8304613, 0xfd469501,
   0x698098d8, 0x8b44f7af, 0xffff5bb1, 0x895cd7be,
   0x6b901122, 0xfd987193, 0xa679438e, 0x49b40821,
   0xf61e2562, 0xc040b340, 0x265e5a51, 0xe9b6c7aa,
   0xd62f105d, 0x02441453, 0xd8a1e681, 0xe7d3fbc8,
   0x21e1cde6, 0xc33707d6, 0xf4d50d87, 0x455a14ed,
   0xa9e3e905, 0xfcefa3f8, 0x676f02d9, 0x8d2a4c8a,
   0xfffa3942, 0x8771f681, 0x6d9d6122, 0xfde5380c,
   0xa4beea44, 0x4bdecfa9, 0xf6bb4b60, 0xbebfbc70,
   0x289b7ec6, 0xeaa127fa, 0xd4ef3085, 0x04881d05,
   0xd9d4d039, 0xe6db99e5, 0x1fa27cf8, 0xc4ac5665,
   0xf4292244, 0x432aff97, 0xab9423a7, 0xfc93a039,
   0x655b59c3, 0x8f0ccc92, 0xffeff47d, 0x85845dd1,
   0x6fa87e4f, 0xfe2ce6e0, 0xa3014314, 0x4e0811a1,
   0xf7537e82, 0xbd3af235, 0x2ad7d2bb, 0xeb86d391]

/-- How far each step rotates: four amounts per round, over and over. -/
def rotations : List UInt32 :=
  [[7, 12, 17, 22], [5, 9, 14, 20], [4, 11, 16, 23], [6, 10, 15, 21]].flatMap
    fun amounts => (List.replicate 4 amounts).flatten

/-- The state between steps. -/
structure State where
  a : UInt32
  b : UInt32
  c : UInt32
  d : UInt32

namespace State

/-- The state before the first block. -/
def initial : State := ⟨0x67452301, 0xefcdab89, 0x98badcfe, 0x10325476⟩

/-- Word-wise sum of two states. -/
def add (s t : State) : State := ⟨s.a + t.a, s.b + t.b, s.c + t.c, s.d + t.d⟩

end State

/-- Rotate a word to the left. -/
def rotateLeft (x n : UInt32) : UInt32 := (x <<< n) ||| (x >>> (32 - n))

/-- How step `i` mixes three words, and the word of the block that it adds. -/
def mix (i : Nat) (b c d : UInt32) : UInt32 × Nat :=
  if i < 16 then ((b &&& c) ||| (~~~b &&& d), i)
  else if i < 32 then ((d &&& b) ||| (~~~d &&& c), (5 * i + 1) % 16)
  else if i < 48 then (b ^^^ c ^^^ d, (3 * i + 5) % 16)
  else (c ^^^ (b ||| ~~~d), 7 * i % 16)

/-- One step on a block, with its constant and rotation. -/
def step (block : List UInt32) (s : State) (p : Nat × UInt32 × UInt32) : State :=
  let (f, g) := mix p.1 s.b s.c s.d
  let sum := s.a + f + p.2.1 + block.getD g 0
  ⟨s.d, s.b + rotateLeft sum p.2.2, s.b, s.c⟩

/-- The 64 steps. -/
def steps : List (Nat × UInt32 × UInt32) :=
  (List.range 64).zip (constants.zip rotations)

/-- Stir one block into the state. -/
def stir (s : State) (block : List UInt32) : State := s.add (steps.foldl (step block) s)

/-- The bytes of a number, the least significant first. -/
def littleEndian : Nat → Nat → List UInt8
  | 0, _ => []
  | k + 1, n => n.toUInt8 :: littleEndian k (n / 256)

/-- A byte sequence with its set bit, zeros and length. -/
def padded (bs : List UInt8) : List UInt8 :=
  bs ++ 0x80 :: List.replicate ((119 - bs.length % 64) % 64) 0 ++ littleEndian 8 (8 * bs.length)

/-- Bytes as words, the least significant byte first. -/
def words : List UInt8 → List UInt32
  | a :: b :: c :: d :: rest =>
    (((d.toNat * 256 + c.toNat) * 256 + b.toNat) * 256 + a.toNat).toUInt32 :: words rest
  | _ => []

/-- Stir all words into the state, sixteen at a time. -/
def stirAll (s : State) (ws : List UInt32) : State :=
  match ws with
  | [] => s
  | w :: rest => stirAll (stir s (w :: rest.take 15)) (rest.drop 15)
termination_by ws.length
decreasing_by
  simp only [List.length_cons, List.length_drop]
  omega

/-- The digest as sixteen bytes. -/
def digest (bs : List UInt8) : List UInt8 :=
  let s := stirAll .initial (words (padded bs))
  [s.a, s.b, s.c, s.d].flatMap fun w => littleEndian 4 w.toNat

/-- The digest in hexadecimal. -/
def hex (bs : List UInt8) : String := Hex.encode (digest bs)

end Md5
end ModuleBuild
