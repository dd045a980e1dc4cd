/-! # Binary floating-point numbers

A `Number` is a double-precision number.  A finite one is a sign and a
*magnitude*: the position of its absolute value among all finite absolute
values, counted from zero.  Magnitudes are ordered as the values they stand for,
consecutive magnitudes are consecutive values, and equal numbers are equal terms
(there is one not-a-number).

The value of a magnitude is `significand * 2 ^ exponent`.  `Magnitude.ofRatio`
goes the other way: it rounds a positive fraction to the nearest magnitude, a tie
to the even one.
-/
namespace ModuleBuild

/-- How many magnitudes one power of two holds. -/
def binade : Nat := Nat.pow 2 52

/-- How many finite magnitudes there are. -/
def magnitudes : Nat := 2047 * binade

/-- The position of a finite absolute value, counted from zero. -/
abbrev Magnitude : Type := Fin magnitudes

namespace Magnitude

/-- The integer part of the representation `significand * 2 ^ exponent`. -/
def significand (x : Magnitude) : Nat :=
  if x.val < binade then x.val else binade + x.val % binade

/-- The power of two in the representation `significand * 2 ^ exponent`. -/
def exponent (x : Magnitude) : Int :=
  if x.val < binade then -1074 else (x.val / binade : Nat) - 1075

/-- The zero magnitude. -/
def zero : Magnitude := ⟨0, by decide⟩

/-- `num / den`, rounded to the nearest integer, a tie to the even one. -/
def roundHalfEven (num den : Nat) : Nat :=
  let q := num / den
  let r := num % den
  if 2 * r < den then q
  else if den < 2 * r then q + 1
  else if q % 2 = 0 then q else q + 1

/-- The `e` with `2 ^ e ≤ num / den < 2 ^ (e + 1)`, for positive arguments. -/
def floorLog2 (num den : Nat) : Int :=
  let k : Int := (num.log2 : Int) - den.log2
  if num * Nat.pow 2 (-k).toNat < den * Nat.pow 2 k.toNat then k - 1 else k

/-- The position of the number nearest to `num / den`, a tie to the even
position; it may lie beyond the finite ones.  The unit of the last place is
`2 ^ e`, and a significand that rounds up to the next power of two lands on that
power's own position. -/
def nearest (num den : Nat) : Nat :=
  let e := max (floorLog2 num den - 52) (-1074)
  (e + 1074).toNat * binade + roundHalfEven (num * Nat.pow 2 (-e).toNat)
      (den * Nat.pow 2 e.toNat)

/-- The nearest magnitude to `num / den`; `none` when the fraction is too large
to be finite. -/
def ofRatio (num den : Nat) : Option Magnitude :=
  if num = 0 then some zero
  else if h : nearest num den < magnitudes then some ⟨nearest num den, h⟩ else none

/-- The value as a fraction `(numerator, denominator)`. -/
def ratio (x : Magnitude) : Nat × Nat :=
  (x.significand * Nat.pow 2 x.exponent.toNat, Nat.pow 2 (-x.exponent).toNat)

end Magnitude

/-- A double-precision number. -/
inductive Number where
  | nan
  | infinite (negative : Bool)
  | finite (negative : Bool) (magnitude : Magnitude)
  deriving DecidableEq

namespace Number

instance : Inhabited Number := ⟨finite false Magnitude.zero⟩

/-- Neither infinite nor not-a-number. -/
def isFinite : Number → Bool
  | finite _ _ => true
  | _ => false

/-- The number nearest to an integer. -/
def ofInt (i : Int) : Number :=
  match Magnitude.ofRatio i.natAbs 1 with
  | some m => finite (decide (i < 0)) m
  | none => infinite (decide (i < 0))

instance (n : Nat) : OfNat Number n := ⟨ofInt n⟩

/-- The integer a number is, if it is one. -/
def toInt? : Number → Option Int
  | finite negative m =>
    let (num, den) := m.ratio
    if num % den = 0 then
      some (if negative then -((num / den : Nat) : Int) else ((num / den : Nat) : Int))
    else none
  | _ => none

/-- Whether the number is an integer. -/
def isInteger (x : Number) : Bool := x.toInt?.isSome

end Number
end ModuleBuild
