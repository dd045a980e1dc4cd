import ModuleBuild.Json.Basic
import ModuleBuild.Text.Hex

/-! # Writing JSON text

Documents are written without spaces.  Inside quotation marks only the mark, the
backslash and the control characters are escaped, those without a letter of
their own by four lower-case hexadecimal digits.  A number that is not finite
is written `null`.
-/
namespace ModuleBuild
namespace Json

/-- One character inside quotation marks. -/
def escape (c : Char) : List Char :=
  if c = '"' then ['\\', '"']
  else if c = '\\' then ['\\', '\\']
  else if c = '\x08' then ['\\', 'b']
  else if c = '\x0c' then ['\\', 'f']
  else if c = '\n' then ['\\', 'n']
  else if c = '\r' then ['\\', 'r']
  else if c = '\t' then ['\\', 't']
  else if c.toNat < 0x20 then '\\' :: 'u' :: Hex.four c.toNat
  else [c]

/-- A text between quotation marks. -/
def quote (s : String) : List Char := '"' :: s.toList.flatMap escape ++ ['"']

/-- A number as JSON text. -/
def numeral (x : Number) : List Char := if x.isFinite then x.text.toList else "null".toList

mutual

/-- A document as JSON text. -/
def print : Json → List Char
  | null => "null".toList
  | bool true => "true".toList
  | bool false => "false".toList
  | number x => numeral x
  | text s => quote s
  | list [] => ['[', ']']
  | list (v :: rest) => '[' :: print v ++ printItems rest
  | object [] => ['\x7b', '\x7d']
  | object ((n, v) :: rest) => '\x7b' :: quote n ++ ':' :: print v ++ printMembers rest

/-- The items after the first one, and the closing bracket. -/
def printItems : List Json → List Char
  | [] => [']']
  | v :: rest => ',' :: print v ++ printItems rest

/-- The members after the first one, and the closing brace. -/
def printMembers : List (String × Json) → List Char
  | [] => ['\x7d']
  | (n, v) :: rest => ',' :: quote n ++ ':' :: print v ++ printMembers rest

end

/-- A document as JSON text. -/
def render (v : Json) : String := String.ofList v.print

end Json
end ModuleBuild
