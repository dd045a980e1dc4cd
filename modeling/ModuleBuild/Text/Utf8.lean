/-! # UTF-8

`Utf8.encode` writes text as bytes, `Utf8.decode` reads bytes as text.  Reading
never fails: a byte sequence that is no character is replaced, its longest part
that begins some character at a time, by U+FFFD.
-/
namespace ModuleBuild
namespace Utf8

/-- The bytes of one character. -/
def encodeChar (c : Char) : List UInt8 :=
  let n := c.toNat
  if n < 0x80 then [n.toUInt8]
  else if n < 0x800 then [(0xC0 + n / 0x40).toUInt8, (0x80 + n % 0x40).toUInt8]
  else if n < 0x10000 then
    [(0xE0 + n / 0x1000).toUInt8, (0x80 + n / 0x40 % 0x40).toUInt8, (0x80 + n % 0x40).toUInt8]
  else
    [(0xF0 + n / 0x40000).toUInt8, (0x80 + n / 0x1000 % 0x40).toUInt8,
      (0x80 + n / 0x40 % 0x40).toUInt8, (0x80 + n % 0x40).toUInt8]

/-- The bytes of a text. -/
def encode (s : String) : List UInt8 := s.toList.flatMap encodeChar

/-- What stands for bytes that are no character. -/
def replacement : Char := Char.ofNat 0xFFFD

/-- The range of the byte after a first byte of three or four: it excludes
overlong forms, surrogates and numbers beyond the last character. -/
def secondRange (b : UInt8) : UInt8 × UInt8 :=
  if b = 0xE0 then (0xA0, 0xBF)
  else if b = 0xED then (0x80, 0x9F)
  else if b = 0xF0 then (0x90, 0xBF)
  else if b = 0xF4 then (0x80, 0x8F)
  else (0x80, 0xBF)

/-- How many bytes follow a first byte, and the bits it contributes. -/
def lead (b : UInt8) : Option (Nat × Nat) :=
  if b < 0x80 then some (0, b.toNat)
  else if 0xC2 ≤ b && b ≤ 0xDF then some (1, b.toNat - 0xC0)
  else if 0xE0 ≤ b && b ≤ 0xEF then some (2, b.toNat - 0xE0)
  else if 0xF0 ≤ b && b ≤ 0xF4 then some (3, b.toNat - 0xF0)
  else none

/-- Take up to `n` continuation bytes into `acc`; the first of them must lie in
`range`.  Returns the number read, if all were there, and what is left. -/
def continuations (range : UInt8 × UInt8) : Nat → Nat → List UInt8 → Option Nat × List UInt8
  | 0, acc, rest => (some acc, rest)
  | _ + 1, _, [] => (none, [])
  | n + 1, acc, b :: rest =>
    if range.1 ≤ b && b ≤ range.2 then
      continuations (0x80, 0xBF) n (acc * 0x40 + (b.toNat - 0x80)) rest
    else (none, b :: rest)

theorem continuations_length (range : UInt8 × UInt8) (n acc : Nat) (s : List UInt8) :
    (continuations range n acc s).2.length ≤ s.length := by
  induction n generalizing range acc s with
  | zero => simp [continuations]
  | succ n ih =>
    cases s with
    | nil => simp [continuations]
    | cons b rest =>
      simp only [continuations]
      split
      · exact Nat.le_succ_of_le (ih _ _ _)
      · exact Nat.le_refl _

/-- The characters of a byte sequence. -/
def decodeChars : List UInt8 → List Char
  | [] => []
  | b :: rest =>
    match lead b with
    | none => replacement :: decodeChars rest
    | some (n, bits) =>
      ((continuations (secondRange b) n bits rest).1.elim replacement Char.ofNat)
        :: decodeChars (continuations (secondRange b) n bits rest).2
termination_by s => s.length
decreasing_by
  · simp
  · have := continuations_length (secondRange b) n bits rest
    simp only [List.length_cons]
    omega

/-- The text of a byte sequence. -/
def decode (bytes : List UInt8) : String := String.ofList (decodeChars bytes)

end Utf8
end ModuleBuild
