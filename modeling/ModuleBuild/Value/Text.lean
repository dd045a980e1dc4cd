import ModuleBuild.Value.Basic

/-! # Plain text of values

The text a value contributes to a message.  A list is its items' texts joined by
commas, nested lists running together and absent items leaving nothing between
their commas; a record shows only that it is one, unless it has a way of its own to
give its text.

Not every value has a text: a record may hide the way in which records give theirs
and offer none that works, and a symbol has a text but not as an item of a list.
-/
namespace ModuleBuild

/-- Why a value has no text. -/
inductive TextFault where
  /-- No conversion of an object answers with a text. -/
  | object
  /-- A symbol stands where only other values have a text. -/
  | symbol
  deriving DecidableEq, Repr

/-- What is wrong, in words. -/
def TextFault.message : TextFault → String
  | object => "Cannot convert object to primitive value"
  | symbol => "Cannot convert a Symbol value to a string"

/-- The text of a value that exists only at compile time. -/
def Foreign.toText : Foreign → Except TextFault String
  | function source _ _ => .ok source
  | symbol text => .ok text
  | object _ text _ => text.elim (.error .object) .ok

namespace Value

/-- The text that a record's own function under a name answers with. -/
def answerAt (name : String) (fs : List (String × Value)) : Option String :=
  match findField name fs with
  | some (.foreign (.function _ _ answer)) => answer
  | _ => none

/-- The text of a record: the one that all records have, unless a field hides it; then
what the record's own functions answer. -/
def recordText (fs : List (String × Value)) : Except TextFault String :=
  if (findField "toString" fs).isSome then
    (answerAt "toString" fs <|> answerAt "valueOf" fs).elim (.error .object) .ok
  else .ok "[object Object]"

mutual

/-- The text of a value in a message. -/
def toText : Value → Except TextFault String
  | undefined => .ok "undefined"
  | null => .ok "null"
  | bool b => .ok (if b then "true" else "false")
  | number x => .ok x.text
  | bigint i => .ok (toString i)
  | text s => .ok s
  | list items => (itemTexts items).map ",".intercalate
  | fields fs => recordText fs
  | foreign f => f.toText

/-- The texts of a list's items; absent ones are empty, and the first item without a
text leaves the list without one. -/
def itemTexts : List Value → Except TextFault (List String)
  | [] => .ok []
  | v :: rest => do
    let text ←
      match v with
      | undefined => .ok ""
      | null => .ok ""
      | foreign (.symbol _) => .error .symbol
      | v => toText v
    let texts ← itemTexts rest
    .ok (text :: texts)

end

end Value
end ModuleBuild
