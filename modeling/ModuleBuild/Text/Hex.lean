/-! # Hexadecimal text

Two digits write a byte.  Digits are written in lower case and read in either.
-/
namespace ModuleBuild
namespace Hex

/-- The value of a digit. -/
def digit? (c : Char) : Option Nat :=
  if '0' ≤ c ∧ c ≤ '9' then some (c.toNat - '0'.toNat)
  else if 'a' ≤ c ∧ c ≤ 'f' then some (c.toNat - 'a'.toNat + 10)
  else if 'A' ≤ c ∧ c ≤ 'F' then some (c.toNat - 'A'.toNat + 10)
  else none

/-- The number that digits write. -/
def number? (digits : List Char) : Option Nat :=
  digits.foldlM (fun n c => (digit? c).map (16 * n + ·)) 0

/-- The last four digits of a number. -/
def four (n : Nat) : List Char :=
  [n / 0x1000 % 16, n / 0x100 % 16, n / 0x10 % 16, n % 16].map Nat.digitChar

/-- The text of bytes. -/
def encode (bs : List UInt8) : String :=
  String.ofList (bs.flatMap fun b =>
    [Nat.digitChar (b.toNat / 16), Nat.digitChar (b.toNat % 16)])

/-- The bytes that pairs of digits write, up to the first pair that is none. -/
def decodePairs : List Char → List UInt8
  | a :: b :: rest =>
    match number? [a, b] with
    | some n => n.toUInt8 :: decodePairs rest
    | none => []
  | _ => []

/-- The bytes that a text writes. -/
def decode (s : String) : List UInt8 := decodePairs s.toList

end Hex
end ModuleBuild
