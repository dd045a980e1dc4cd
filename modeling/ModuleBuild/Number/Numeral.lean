import ModuleBuild.Number.Decimal
import ModuleBuild.Text.Blank

/-! # Numerals

Numbers and integers as authors may spell them: with blanks around them, in
decimal, hexadecimal, octal or binary, and with nothing at all for zero.
-/
namespace ModuleBuild
namespace Numeral

/-- The value of a digit in some base up to 36. -/
def digit? (c : Char) : Option Nat :=
  if '0' ≤ c ∧ c ≤ '9' then some (c.toNat - '0'.toNat)
  else if 'a' ≤ c ∧ c ≤ 'z' then some (c.toNat - 'a'.toNat + 10)
  else if 'A' ≤ c ∧ c ≤ 'Z' then some (c.toNat - 'A'.toNat + 10)
  else none

/-- The number that digits of a base spell; every character must be one. -/
def natural? (base : Nat) (ds : List Char) : Option Nat :=
  if ds = [] then none
  else ds.foldlM (fun n c => do
    let d ← digit? c
    if d < base then some (n * base + d) else none) 0

/-- The natural number that a text with a base mark spells, if it has one. -/
def based? : List Char → Option (Option Nat)
  | '0' :: m :: ds =>
    if m = 'x' ∨ m = 'X' then some (natural? 16 ds)
    else if m = 'o' ∨ m = 'O' then some (natural? 8 ds)
    else if m = 'b' ∨ m = 'B' then some (natural? 2 ds)
    else none
  | _ => none

/-- A sign and what follows it. -/
def signed : List Char → Bool × List Char
  | '-' :: rest => (true, rest)
  | '+' :: rest => (false, rest)
  | rest => (false, rest)

/-- The exponent that the end of a decimal spells. -/
def exponent? : List Char → Option Int
  | [] => some 0
  | c :: rest =>
    if c = 'e' ∨ c = 'E' then
      let (negative, ds) := signed rest
      (natural? 10 ds).map fun n => if negative then -(n : Int) else (n : Int)
    else none

/-- An unsigned decimal: digits on at least one side of an optional point, and an
optional exponent. -/
def decimal? (s : List Char) : Option Decimal := do
  let whole := s.takeWhile Char.isDigit
  let rest := s.dropWhile Char.isDigit
  let (fraction, rest) := match rest with
    | '.' :: rest => (rest.takeWhile Char.isDigit, rest.dropWhile Char.isDigit)
    | rest => ([], rest)
  let e ← exponent? rest
  let n ← natural? 10 (whole ++ fraction)
  some ⟨n, e - fraction.length⟩

/-- The number that a text spells; not-a-number if it spells none. -/
def number (s : String) : Number :=
  let cs := Text.trimBlanks s.toList
  if cs = [] then 0
  else match based? cs with
    | some n => (n.map fun n => Number.ofInt n).getD .nan
    | none =>
      let (negative, ds) := signed cs
      if ds = "Infinity".toList then .infinite negative
      else ((decimal? ds).map fun d => Number.ofDecimal negative d).getD .nan

/-- The integer that a text spells. -/
def integer? (s : String) : Option Int :=
  let cs := Text.trimBlanks s.toList
  if cs = [] then some 0
  else match based? cs with
    | some n => n.map fun n => (n : Int)
    | none =>
      let (negative, ds) := signed cs
      (natural? 10 ds).map fun n => if negative then -(n : Int) else (n : Int)

end Numeral
end ModuleBuild
