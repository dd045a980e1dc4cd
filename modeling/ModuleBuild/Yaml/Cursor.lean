/-! # Places in YAML text

A `Cursor` is a place in a text: what is left of it, and the column.  A `Gap` is
what lies between two tokens: blanks, line ends and comments.  How far the line of
the next token is indented decides where in a document it belongs.
-/
namespace ModuleBuild
namespace Yaml

/-- A place in a text. -/
structure Cursor where
  rest : List Char
  column : Nat

/-- Whether a character separates tokens. -/
def isBlank (c : Char) : Bool := c = ' ' || c = '\t' || c = '\n'

/-- Whether a character stands for the structure of flow collections. -/
def isFlowMark (c : Char) : Bool := c = ',' || c = '[' || c = ']' || c = '\x7b' || c = '\x7d'

/-- Whether a text begins with a blank, or is empty. -/
def blankAhead : List Char → Bool
  | [] => true
  | c :: _ => isBlank c

/-- Whether a text begins with a flow mark. -/
def flowMarkAhead : List Char → Bool
  | [] => false
  | c :: _ => isFlowMark c

/-- Whether a line is a mark between documents. -/
def isMarker : List Char → Bool
  | '-' :: '-' :: '-' :: rest => blankAhead rest
  | '.' :: '.' :: '.' :: rest => blankAhead rest
  | _ => false

/-- How many spaces a text begins with. -/
def spaces (s : List Char) : Nat := (s.takeWhile (· = ' ')).length

/-- Whether the line that follows goes on with a scalar: it is empty, or is indented
by `least`, or, when nothing is asked, is no mark between documents. -/
def continues (least : Nat) (s : List Char) : Bool :=
  if least = 0 then !isMarker s
  else (s.dropWhile (· = ' ')).head? = some '\n' || least ≤ spaces s

namespace Cursor

/-- The place after so many characters of the same line. -/
def skip (c : Cursor) (n : Nat) : Cursor := ⟨c.rest.drop n, c.column + n⟩

/-- Whether nothing of the document is left. -/
def atEnd (c : Cursor) : Bool := c.rest.isEmpty || (c.column = 0 && isMarker c.rest)

/-- Whether an indicator stands here: the character, set off from what follows. -/
def atIndicator (c : Cursor) (mark : Char) : Bool :=
  match c.rest with
  | x :: rest => x = mark && blankAhead rest
  | [] => false

/-- Whether an indicator stands here, inside a flow collection. -/
def atFlowIndicator (c : Cursor) (mark : Char) : Bool :=
  match c.rest with
  | x :: rest => x = mark && (blankAhead rest || flowMarkAhead rest)
  | [] => false

/-- The place after spaces and tabs. -/
def blanks (c : Cursor) : Cursor :=
  c.skip (c.rest.takeWhile fun x => x = ' ' || x = '\t').length

/-- The text between two places. -/
def upTo (c d : Cursor) : List Char := c.rest.take (c.rest.length - d.rest.length)

end Cursor

/-- What lies between two tokens. -/
structure Gap where
  /-- Where the next token begins. -/
  cursor : Cursor
  /-- Whether a line ends in the gap. -/
  hasNewline : Bool
  /-- Whether there is a tab between the beginning of the gap, or of the line, and the
  next token. -/
  hasTab : Bool
  /-- By how many spaces the line of the next token is indented, if it is a new one. -/
  indent : Nat

namespace Gap

/-- What the walk through a gap has seen. -/
structure Walk where
  column : Nat
  /-- Whether a comment may begin. -/
  spaced : Bool
  inComment : Bool
  hasNewline : Bool
  hasTab : Bool
  indent : Nat

/-- Walk to the next token.  A comment must be set off from what goes before it. -/
def walk (w : Walk) : List Char → Option Gap
  | [] => some ⟨⟨[], w.column⟩, w.hasNewline, w.hasTab, w.indent⟩
  | c :: rest =>
    if c = '\n' then walk ⟨0, true, false, true, false, 0⟩ rest
    else if w.inComment then walk { w with column := w.column + 1 } rest
    else if c = ' ' then
      let indent := if w.column = w.indent then w.indent + 1 else w.indent
      walk { w with column := w.column + 1, spaced := true, indent } rest
    else if c = '\t' then
      walk { w with column := w.column + 1, spaced := true, hasTab := true } rest
    else if c = '#' then
      if w.spaced then walk { w with column := w.column + 1, inComment := true } rest else none
    else some ⟨⟨c :: rest, w.column⟩, w.hasNewline, w.hasTab, w.indent⟩

/-- The gap after a token. -/
def after (c : Cursor) : Option Gap :=
  walk ⟨c.column, false, false, false, false, 0⟩ c.rest

/-- The gap at the beginning of a line. -/
def ofLine (s : List Char) : Option Gap := walk ⟨0, true, false, true, false, 0⟩ s

end Gap
end Yaml
end ModuleBuild
