import ModuleBuild.Number.Basic

/-! # Decimal text of numbers

`Decimal` is `digits * 10 ^ exponent`.  `Magnitude.ofDecimal` reads one by
rounding to the nearest magnitude; `Magnitude.shortest` finds the decimal with
the fewest digits that reads back as the same magnitude and, of those, the one
nearest to it.  `Number.text` writes that decimal, positionally while the point
stays within 21 digits of the first digit and with an exponent beyond.
-/
namespace ModuleBuild

/-- The decimal `digits * 10 ^ exponent`. -/
structure Decimal where
  digits : Nat
  exponent : Int
  deriving DecidableEq, Repr

namespace Magnitude

/-- The magnitude nearest to a decimal; `none` beyond the finite ones.  Decimals
below half the least magnitude or above twice the greatest are settled by their
digit count, so that no huge power is computed. -/
def ofDecimal (d : Decimal) : Option Magnitude :=
  let length : Int := (Nat.toDigits 10 d.digits).length
  if d.digits = 0 ∨ length + d.exponent < -330 then some zero
  else if 330 < length + d.exponent then none
  else ofRatio (d.digits * Nat.pow 10 d.exponent.toNat) (Nat.pow 10 (-d.exponent).toNat)

/-- The decimal that a magnitude is. -/
def exactDecimal (x : Magnitude) : Decimal :=
  if 0 ≤ x.exponent then ⟨x.significand * Nat.pow 2 x.exponent.toNat, 0⟩
  else ⟨x.significand * Nat.pow 5 (-x.exponent).toNat, x.exponent⟩

/-- A power of ten above a positive magnitude, and at most a hundred times it. -/
def decimalPoint (x : Magnitude) : Int :=
  let (num, den) := x.ratio
  let k := Int.fdiv (floorLog2 num den * 30103) 100000 + 1
  if num * Nat.pow 10 (-k).toNat < den * Nat.pow 10 k.toNat then k else k + 1

/-- The decimal on the grid of step `10 ^ e` that reads back as `x` and is
nearest to it, if the grid has one. -/
def onGrid (x : Magnitude) (e : Int) : Option Decimal :=
  let (num, den) := x.ratio
  let num' := num * Nat.pow 10 (-e).toNat
  let den' := den * Nat.pow 10 e.toNat
  let below : Decimal := ⟨num' / den', e⟩
  let above : Decimal := ⟨num' / den' + 1, e⟩
  let nearestFirst := if 2 * (num' % den') ≤ den' then [below, above] else [above, below]
  nearestFirst.find? (fun d => ofDecimal d = some x)

/-- The decimal with the fewest digits that reads back as `x`. -/
def shortest (x : Magnitude) : Decimal :=
  let point := decimalPoint x
  ((List.range 17).findSome? fun n => x.onGrid (point - (n + 1 : Nat))).getD x.exactDecimal

end Magnitude

namespace Decimal

/-- The digits of a decimal without trailing zeros, and the position of its
point: the value is `0.digits * 10 ^ point`. -/
def scientific (d : Decimal) : List Char × Int :=
  let digits := Nat.toDigits 10 d.digits
  let point := (digits.length : Int) + d.exponent
  ((digits.reverse.dropWhile (· = '0')).reverse, point)

/-- The written form: positional while the point is at most 21 places after the
first digit and at most 6 places before it, else `d.ddde±x`. -/
def text (d : Decimal) : String :=
  let (digits, point) := d.scientific
  let n : Int := digits.length
  if n ≤ point ∧ point ≤ 21 then
    String.ofList (digits ++ List.replicate (point - n).toNat '0')
  else if 0 < point ∧ point ≤ 21 then
    String.ofList (digits.take point.toNat ++ '.' :: digits.drop point.toNat)
  else if -6 < point ∧ point ≤ 0 then
    String.ofList ('0' :: '.' :: List.replicate (-point).toNat '0' ++ digits)
  else
    let e := point - 1
    let fraction := if digits.length = 1 then [] else '.' :: digits.drop 1
    String.ofList (digits.take 1 ++ fraction)
      ++ (if e < 0 then "e-" else "e+") ++ toString e.natAbs

end Decimal

namespace Number

/-- The text of a number; both zeros are written `0`. -/
def text : Number → String
  | nan => "NaN"
  | infinite false => "Infinity"
  | infinite true => "-Infinity"
  | finite negative m =>
    if m.val = 0 then "0"
    else (if negative then "-" else "") ++ m.shortest.text

/-- The number a signed decimal denotes, rounded to nearest. -/
def ofDecimal (negative : Bool) (d : Decimal) : Number :=
  match Magnitude.ofDecimal d with
  | some m => finite negative m
  | none => infinite negative

end Number
end ModuleBuild
