import ModuleBuild.Value.Text

/-! # Message templates

A template is text with *holes*, written as a name between braces.
`Template.parse` finds the holes of a text from left to right; whatever is no
hole stays as it is.  `Template.fill` puts the text of a context's value into
each hole, and what it puts in is not looked at again; a value without a text leaves
no message.  `Template.render` does both.  `Template.words` fills a template with
texts, which always succeeds.
-/
namespace ModuleBuild

/-- A part of a template. -/
inductive Piece where
  | text (s : String)
  | hole (name : String)
  deriving DecidableEq, Repr

/-- A message with holes. -/
abbrev Template := List Piece

namespace Template

/-- A character that a hole's name may begin with. -/
def isNameStart (c : Char) : Bool := c.isAlpha || c = '_'

/-- A character that a hole's name may go on with. -/
def isNamePart (c : Char) : Bool := c.isAlphanum || c = '_'

/-- The name of the hole that a text after an opening brace begins with, and the
text after the hole. -/
def hole? : List Char → Option (List Char × List Char)
  | [] => none
  | c :: s =>
    if isNameStart c then
      match s.dropWhile isNamePart with
      | '\x7d' :: rest => some (c :: s.takeWhile isNamePart, rest)
      | _ => none
    else none

theorem hole?_length {s : List Char} {r : List Char × List Char} (h : hole? s = some r) :
    r.2.length < s.length := by
  cases s with
  | nil => simp [hole?] at h
  | cons c s =>
    simp only [hole?] at h
    split at h
    · split at h
      · rename_i rest hrest
        have hle := (List.dropWhile_suffix isNamePart (l := s)).length_le
        rw [hrest] at hle
        cases h
        simp only [List.length_cons] at hle ⊢
        omega
      · cases h
    · cases h

/-- Put a character in front of a template's text. -/
def consChar (c : Char) : Template → Template
  | .text s :: rest => .text (String.ofList (c :: s.toList)) :: rest
  | t => .text c.toString :: t

/-- The template that characters spell. -/
def parseChars : List Char → Template
  | [] => []
  | c :: s =>
    if c = '\x7b' then
      match _h : hole? s with
      | some r => .hole (String.ofList r.1) :: parseChars r.2
      | none => consChar c (parseChars s)
    else consChar c (parseChars s)
termination_by s => s.length
decreasing_by
  · have := hole?_length _h
    simp only [List.length_cons]
    omega
  · simp
  · simp

/-- The template that a text spells. -/
def parse (s : String) : Template := parseChars s.toList

/-- The text that spells a template. -/
def source (t : Template) : String :=
  String.join (t.map fun
    | .text s => s
    | .hole n => "\x7b" ++ n ++ "\x7d")

/-- Names that every context answers to when it has no value of its own. -/
def inherited (name : String) : Option String :=
  if name = "constructor" then some "function Object() \x7b [native code] \x7d"
  else if name = "__proto__" then some "[object Object]"
  else if ["hasOwnProperty", "isPrototypeOf", "propertyIsEnumerable", "toLocaleString",
      "toString", "valueOf", "__defineGetter__", "__defineSetter__", "__lookupGetter__",
      "__lookupSetter__"].contains name then
    some ("function " ++ name ++ "() \x7b [native code] \x7d")
  else none

/-- The text that goes into a hole: nothing for a value that is absent. -/
def holeText (context : List (String × Value)) (name : String) : Except TextFault String :=
  match Value.findField name context with
  | some .undefined => .ok ""
  | some v => v.toText
  | none => .ok ((inherited name).getD "")

/-- The text of a piece. -/
def pieceText (context : List (String × Value)) : Piece → Except TextFault String
  | .text s => .ok s
  | .hole n => holeText context n

/-- The message of a template in a context.  The first hole whose value has no text
decides why there is none. -/
def fill (t : Template) (context : List (String × Value)) : Except TextFault String :=
  (t.mapM (pieceText context)).map String.join

/-- The message of a template's text in a context. -/
def render (template : String) (context : List (String × Value)) : Except TextFault String :=
  (parse template).fill context

/-- The text of a piece, given the texts of the holes. -/
def pieceWords (texts : List (String × String)) : Piece → String
  | .text s => s
  | .hole n => (Value.findField n texts).getD ((inherited n).getD "")

/-- The message of a template, given the texts of its holes. -/
def words (t : Template) (texts : List (String × String)) : String :=
  String.join (t.map (pieceWords texts))

end Template
end ModuleBuild
