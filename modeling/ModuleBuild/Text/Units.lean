/-! # Text as 16-bit units

Text is compared and measured by its UTF-16 units: a character beyond the basic
plane counts as the two halves of its surrogate pair, and sorts among them.
-/
namespace ModuleBuild
namespace Text

/-- The units of one character. -/
def charUnits (c : Char) : List Nat :=
  if c.toNat < 0x10000 then [c.toNat]
  else [0xD800 + (c.toNat - 0x10000) / 0x400, 0xDC00 + (c.toNat - 0x10000) % 0x400]

/-- The units of a text, in order. -/
def units (s : String) : List Nat := s.toList.flatMap charUnits

/-- The characters that units spell; half a surrogate pair alone is replaced. -/
def ofUnits : List Nat → List Char
  | [] => []
  | [u] => [if 0xD800 ≤ u ∧ u ≤ 0xDFFF then Char.ofNat 0xFFFD else Char.ofNat u]
  | u :: v :: rest =>
    if 0xD800 ≤ u ∧ u ≤ 0xDBFF ∧ 0xDC00 ≤ v ∧ v ≤ 0xDFFF then
      Char.ofNat (0x10000 + (u - 0xD800) * 0x400 + (v - 0xDC00)) :: ofUnits rest
    else if 0xD800 ≤ u ∧ u ≤ 0xDFFF then Char.ofNat 0xFFFD :: ofUnits (v :: rest)
    else Char.ofNat u :: ofUnits (v :: rest)

/-- How many units a text has. -/
def unitLength (s : String) : Nat := (units s).length

/-- The order of texts by their units. -/
def compareUnits (a b : String) : Ordering := compare (units a) (units b)

/-- Texts in unit order; equal texts keep their places. -/
def sort (l : List String) : List String :=
  l.mergeSort fun a b => (compareUnits a b).isLE

end Text
end ModuleBuild
