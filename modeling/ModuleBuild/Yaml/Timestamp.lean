/-! # Points in time

A point in time is written as a date, which a time of day and a time zone may follow.
-/
namespace ModuleBuild
namespace Yaml

/-- What follows the digits that a text begins with, at least and at most so many. -/
def afterDigits (least most : Nat) (s : List Char) : Option (List Char) :=
  let count := min most (s.takeWhile Char.isDigit).length
  if least ≤ count then some (s.drop count) else none

/-- What follows a mark that a text begins with. -/
def afterMark (mark : Char) : List Char → Option (List Char)
  | [] => none
  | c :: rest => if c = mark then some rest else none

/-- A text without the blanks that it begins with. -/
def withoutBlanks (s : List Char) : List Char := s.dropWhile fun c => c = ' ' || c = '\t'

/-- Whether a text is a time zone: the mark of universal time, or an offset of hours, and of
minutes if they are given. -/
def isZone : List Char → Bool
  | ['Z'] => true
  | sign :: rest =>
    let (hours, minutes) := rest.span Char.isDigit
    let isOffset :=
      match hours with
      | [_] => true
      | [tens, _] => tens = '0' || tens = '1' || tens = '2'
      | _ => false
    (sign = '+' || sign = '-') && isOffset &&
      (minutes = [] || ((afterMark ':' minutes).bind (afterDigits 2 2)) = some [])
  | [] => false

/-- Whether a text is hours, minutes and seconds, with a time zone if one is given. -/
def isTimeOfDay (s : List Char) : Bool :=
  let seconds := do
    let s ← afterMark ':' (← afterDigits 1 2 s)
    let s ← afterMark ':' (← afterDigits 1 2 s)
    afterDigits 1 2 s
  match seconds with
  | none => false
  | some s =>
    let rest :=
      match s with
      | '.' :: fraction =>
        let (digits, rest) := fraction.span Char.isDigit
        if digits = [] then s else rest
      | s => s
    rest = [] || isZone (withoutBlanks rest)

/-- Whether a text is a date, with a time of day if one is given. -/
def isTimestamp (s : List Char) : Bool :=
  let day := do
    let s ← afterMark '-' (← afterDigits 4 4 s)
    let s ← afterMark '-' (← afterDigits 1 2 s)
    afterDigits 1 2 s
  match day with
  | none => false
  | some [] => true
  | some (c :: rest) =>
    if c = 't' || c = 'T' then isTimeOfDay rest
    else (c = ' ' || c = '\t') && isTimeOfDay (withoutBlanks rest)

end Yaml
end ModuleBuild
