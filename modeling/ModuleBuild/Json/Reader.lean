import ModuleBuild.Json.Basic
import ModuleBuild.Text.Hex

/-! # Reading JSON text

`Json.parse` reads exactly one document, with blanks around it.  Every reading
step takes characters off the front of the text and returns what is left.  The
steps for documents carry a bound on their number; twice the length of the
text is always enough.
-/
namespace ModuleBuild
namespace Json

/-- Blanks between the parts of a document. -/
def isSpace (c : Char) : Bool := c = ' ' || c = '\t' || c = '\n' || c = '\r'

/-- The text after its leading blanks. -/
def skip (s : List Char) : List Char := s.dropWhile isSpace

/-- Four hexadecimal digits. -/
def readHex4 : List Char → Option (Nat × List Char)
  | a :: b :: c :: d :: rest => (Hex.number? [a, b, c, d]).map (·, rest)
  | _ => none

/-- The character that an escape letter stands for. -/
def escaped? : Char → Option Char
  | '"' => some '"'
  | '\\' => some '\\'
  | '/' => some '/'
  | 'b' => some '\x08'
  | 'f' => some '\x0c'
  | 'n' => some '\n'
  | 'r' => some '\r'
  | 't' => some '\t'
  | _ => none

/-- The second half of a surrogate pair, if the text goes on with one. -/
def lowSurrogate? : List Char → Option Nat
  | '\\' :: 'u' :: rest =>
    match readHex4 rest with
    | some (n, _) => if 0xDC00 ≤ n ∧ n ≤ 0xDFFF then some n else none
    | none => none
  | _ => none

/-- Read quoted characters up to the closing mark.  Two escapes that are the
halves of a surrogate pair are one character, and half a pair is replaced. -/
def readQuoted : List Char → Option (List Char × List Char)
  | [] => none
  | '"' :: rest => some ([], rest)
  | '\\' :: 'u' :: a :: b :: c :: d :: rest =>
    match readHex4 [a, b, c, d] with
    | none => none
    | some (n, _) =>
      if 0xD800 ≤ n ∧ n ≤ 0xDBFF then
        match lowSurrogate? rest with
        | some low =>
          (readQuoted (rest.drop 6)).map fun r =>
            (Char.ofNat (0x10000 + (n - 0xD800) * 0x400 + (low - 0xDC00)) :: r.1, r.2)
        | none => (readQuoted rest).map fun r => (Char.ofNat 0xFFFD :: r.1, r.2)
      else if 0xDC00 ≤ n ∧ n ≤ 0xDFFF then
        (readQuoted rest).map fun r => (Char.ofNat 0xFFFD :: r.1, r.2)
      else (readQuoted rest).map fun r => (Char.ofNat n :: r.1, r.2)
  | '\\' :: e :: rest =>
    match escaped? e with
    | some c => (readQuoted rest).map fun r => (c :: r.1, r.2)
    | none => none
  | c :: rest =>
    if c.toNat < 0x20 ∨ c = '\\' then none
    else (readQuoted rest).map fun r => (c :: r.1, r.2)
termination_by s => s.length
decreasing_by all_goals (simp only [List.length_cons, List.length_drop]; omega)

/-- The leading digits of a text and what follows them. -/
def digits (s : List Char) : List Char × List Char := s.span Char.isDigit

/-- The number that decimal digits spell. -/
def ofDigits (ds : List Char) : Nat := ds.foldl (fun n c => n * 10 + (c.toNat - '0'.toNat)) 0

/-- Decimals after a point, if there is a point; a point needs one. -/
def readFraction : List Char → Option (List Char × List Char)
  | '.' :: rest => let (ds, rest) := digits rest; if ds = [] then none else some (ds, rest)
  | s => some ([], s)

/-- An exponent, if there is one; a mark needs digits. -/
def readExponent : List Char → Option (Int × List Char)
  | [] => some (0, [])
  | c :: rest =>
    if c = 'e' ∨ c = 'E' then
      let (negative, rest) := match rest with
        | '-' :: rest => (true, rest)
        | '+' :: rest => (false, rest)
        | rest => (false, rest)
      let (ds, rest) := digits rest
      if ds = [] then none
      else some (if negative then -(ofDigits ds : Int) else ofDigits ds, rest)
    else some (0, c :: rest)

/-- A number: an integer part without superfluous zeros, then a fraction and an
exponent, each optional. -/
def readNumber (s : List Char) : Option (Number × List Char) := do
  let (negative, s) := match s with
    | '-' :: rest => (true, rest)
    | s => (false, s)
  let (whole, s) := digits s
  if whole = [] ∨ (whole.length ≠ 1 ∧ whole.head? = some '0') then none
  else
    let (fraction, s) ← readFraction s
    let (e, s) ← readExponent s
    some (Number.ofDecimal negative ⟨ofDigits (whole ++ fraction), e - fraction.length⟩, s)

/-- The text after a literal word, if it begins with it. -/
def word (w : String) (s : List Char) : Option (List Char) :=
  if s.take w.length = w.toList then some (s.drop w.length) else none

mutual

/-- A document, with blanks before it allowed. -/
def readValue : Nat → List Char → Option (Json × List Char)
  | 0, _ => none
  | fuel + 1, s =>
    match skip s with
    | [] => none
    | '"' :: rest => (readQuoted rest).map fun r => (text (String.ofList r.1), r.2)
    | '[' :: rest =>
      match skip rest with
      | ']' :: rest => some (list [], rest)
      | rest => (readItems fuel rest).map fun r => (list r.1, r.2)
    | '\x7b' :: rest =>
      match skip rest with
      | '\x7d' :: rest => some (object [], rest)
      | rest => (readMembers fuel rest).map fun r => (ofMembers r.1, r.2)
    | 't' :: rest => (word "rue" rest).map fun r => (bool true, r)
    | 'f' :: rest => (word "alse" rest).map fun r => (bool false, r)
    | 'n' :: rest => (word "ull" rest).map fun r => (null, r)
    | s => (readNumber s).map fun r => (number r.1, r.2)

/-- Items up to the closing bracket. -/
def readItems : Nat → List Char → Option (List Json × List Char)
  | 0, _ => none
  | fuel + 1, s => do
    let (v, s) ← readValue fuel s
    match skip s with
    | ',' :: rest =>
      let (vs, s) ← readItems fuel rest
      some (v :: vs, s)
    | ']' :: rest => some ([v], rest)
    | _ => none

/-- Members up to the closing brace. -/
def readMembers : Nat → List Char → Option (List (String × Json) × List Char)
  | 0, _ => none
  | fuel + 1, s => do
    match skip s with
    | '"' :: rest =>
      let (name, s) ← readQuoted rest
      match skip s with
      | ':' :: rest =>
        let (v, s) ← readValue fuel rest
        match skip s with
        | ',' :: rest =>
          let (ms, s) ← readMembers fuel rest
          some ((String.ofList name, v) :: ms, s)
        | '\x7d' :: rest => some ([(String.ofList name, v)], rest)
        | _ => none
      | _ => none
    | _ => none

end

/-- The document that a text spells. -/
def parse (s : String) : Option Json :=
  match readValue (2 * s.length + 2) s.toList with
  | some (v, rest) => if skip rest = [] then some v else none
  | none => none

end Json
end ModuleBuild
