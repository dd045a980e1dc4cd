import ModuleBuild.Yaml.Flow

/-! # Reading YAML documents

`Yaml.readDocument` reads a text that holds one document.  In block style a node belongs
to the innermost node that it is indented further than; a sequence may also stand right
below the key that it belongs to.

The reading steps carry a bound on their depth; four times the length of the text is
always enough.  Only the command line reads YAML in this way (`Yaml.parse`).
-/
namespace ModuleBuild
namespace Yaml

/-! ## Block style -/

/-- Where a node may stand: by how much the node around it is indented, `none` for a
whole document, and whether a sequence may be indented as much. -/
structure Place where
  parent : Option Nat
  aligned : Bool

namespace Place

/-- The least indentation of a node, and of the lines that continue a scalar. -/
def least (p : Place) : Nat := (p.parent.map (· + 1)).getD 0

/-- Whether the node after a gap with a new line belongs here. -/
def holds (p : Place) (g : Gap) : Bool :=
  p.least ≤ g.indent ||
    (p.aligned && p.parent = some g.indent && !g.hasTab && g.cursor.atIndicator '-')

/-- Whether a line is indented with a tab where only spaces count. -/
def isTabbed (p : Place) (g : Gap) : Bool :=
  g.hasTab && decide (g.indent ≤ p.parent.getD 0) &&
    !(p.parent.isNone &&
      (g.cursor.rest.head? = some '[' || g.cursor.rest.head? = some '\x7b'))

end Place

/-- Read a node without tag and anchor that is no block collection.  The last part says
whether it may be a key. -/
def readContent (fuel : Nat) (p : Place) (c : Cursor) : Option ((Node × Bool) × Cursor) :=
  match c.rest.head? with
  | none => none
  | some x =>
    if x = '|' || x = '>' then
      (readBlock p.parent c).map fun r => ((.scalar .none false r.1, false), r.2)
    else if x = '"' || x = '\'' then
      (readQuoted p.least c).map fun r => ((.scalar .none false r.1, true), r.2)
    else if x = '[' || x = '\x7b' || x = '*' then
      (flowNode fuel p.least 0 .none c).map fun r => ((r.1, true), r.2)
    else (readPlain false p.least c).map fun r => ((.scalar .none true r.1, true), r.2)

/-- Read the key of a pair whose parts stand on one line, up to its colon. -/
def readKey (fuel : Nat) (c : Cursor) : Option (Node × Cursor) := do
  let (p, d) ← readProps fuel .none c
  let d := d.blanks
  if d.atIndicator ':' then some (.empty p, d)
  else
    let ((node, mayBeKey), e) ← readContent fuel ⟨some c.column, false⟩ d
    let e := e.blanks
    if mayBeKey && e.atIndicator ':' && isKeySpan c e then some (← node.withProps p, e) else none

mutual

/-- Read the node after an indicator; nothing may be written for it.  `compact` allows a
block collection to begin on the line of the indicator. -/
def readValue (fuel : Nat) (p : Place) (compact : Bool) (c : Cursor) : Option (Node × Cursor) :=
  match fuel with
  | 0 => none
  | fuel + 1 => do
    let g ← Gap.after c
    if g.cursor.atEnd then some (.empty .none, c)
    else if !g.hasNewline then readNode fuel p .none compact g
    else if p.isTabbed g then none
    else if p.holds g then readNode fuel p .none true g
    else some (.empty .none, c)

/-- Read the node after a gap.  `outer` are its tag and anchor if they stand on a line of
their own, and `mayNest` says whether a block collection may begin here. -/
def readNode (fuel : Nat) (p : Place) (outer : Props) (mayNest : Bool) (g : Gap) :
    Option (Node × Cursor) :=
  match fuel with
  | 0 => none
  | fuel + 1 => do
    let c := g.cursor
    let mayNest := mayNest && !g.hasTab
    if c.atIndicator '-' then
      if mayNest then
        let (items, d) ← readItems fuel c.column [] c
        some (.sequence outer items, d)
      else none
    else if c.atIndicator '?' || c.atIndicator ':' then
      if mayNest then
        let (entries, d) ← readEntries fuel c.column [] c
        some (.mapping outer entries, d)
      else none
    else
      let (inner, d) ← readProps fuel .none c
      let h ← Gap.after d
      if inner ≠ .none && (h.hasNewline || h.cursor.atEnd) then
        let props ← outer.join inner
        if h.cursor.atEnd then some (.empty props, d)
        else if p.isTabbed h then none
        else if p.holds h then readNode fuel p props true h
        else some (.empty props, d)
      else if h.cursor.atIndicator ':' then
        if mayNest then
          let (entries, d) ← readEntries fuel c.column [] c
          some (.mapping outer entries, d)
        else none
      else
        let ((node, mayBeKey), e) ← readContent fuel p h.cursor
        if mayBeKey && e.blanks.atIndicator ':' then
          if mayNest then
            let (entries, d) ← readEntries fuel c.column [] c
            some (.mapping outer entries, d)
          else none
        else
          let props ← outer.join inner
          some (← node.withProps props, e)

/-- Read the items of a block sequence; the cursor stands at a dash in its column. -/
def readItems (fuel column : Nat) (items : List Node) (c : Cursor) :
    Option (List Node × Cursor) :=
  match fuel with
  | 0 => none
  | fuel + 1 => do
    let (item, d) ← readValue fuel ⟨some column, false⟩ true (c.skip 1)
    let items := items ++ [item]
    let g ← Gap.after d
    if g.cursor.atEnd then some (items, d)
    else if !g.hasNewline || g.hasTab || column < g.indent then none
    else if g.indent = column && g.cursor.atIndicator '-' then
      readItems fuel column items g.cursor
    else some (items, d)

/-- Read the entries of a block mapping; the cursor stands at a key in its column. -/
def readEntries (fuel column : Nat) (entries : List (Node × Node)) (c : Cursor) :
    Option (List (Node × Node) × Cursor) :=
  match fuel with
  | 0 => none
  | fuel + 1 => do
    let place : Place := ⟨some column, true⟩
    let (entry, d) ←
      if c.atIndicator '?' then do
        let (key, d) ← readValue fuel place true (c.skip 1)
        let g ← Gap.after d
        if g.hasNewline && !g.hasTab && g.indent = column && g.cursor.atIndicator ':' then
          let (value, d) ← readValue fuel place true (g.cursor.skip 1)
          pure ((key, value), d)
        else pure ((key, .empty .none), d)
      else do
        let (key, d) ← readKey fuel c
        let (value, d) ← readValue fuel place false (d.skip 1)
        pure ((key, value), d)
    let entries := entries ++ [entry]
    let g ← Gap.after d
    if g.cursor.atEnd then some (entries, d)
    else if !g.hasNewline || g.hasTab || column < g.indent then none
    else if g.indent = column then readEntries fuel column entries g.cursor
    else some (entries, d)

end

/-! ## Documents -/

/-- What directives say before a document. -/
structure Preamble where
  /-- The names that the beginnings of tags are short for. -/
  handles : List (String × String)
  /-- Whether there are directives, which only a mark ends. -/
  isOpen : Bool

/-- The words of a line, up to a comment. -/
def words (l : List Char) : List String :=
  let parts := (l.splitBy fun a b => isBlank a == isBlank b).filter fun w => !w.all isBlank
  (parts.takeWhile fun w => w.head? ≠ some '#').map String.ofList

/-- Whether a text is a version: two numbers with a point between them. -/
def isVersion (s : String) : Bool :=
  match s.toList.splitOn '.' with
  | [a, b] => a ≠ [] && b ≠ [] && (a ++ b).all Char.isDigit
  | _ => false

/-- Take up a directive.  One of an unknown kind is passed over. -/
def Preamble.add (p : Preamble) (line : List Char) : Option Preamble :=
  match words line with
  | ["%TAG", handle, name] => some ⟨(handle, name) :: p.handles, true⟩
  | "%TAG" :: _ => none
  | ["%YAML", version] => if isVersion version then some { p with isOpen := true } else none
  | "%YAML" :: _ => none
  | _ => some { p with isOpen := true }

/-- Whether a line holds nothing but blanks and a comment. -/
def isIdle (l : List Char) : Bool :=
  match trimLeft l with
  | [] => true
  | c :: _ => c = '#'

/-- Read the lines before a document. -/
def readPreamble (p : Preamble) : List (List Char) → Option (Preamble × List (List Char))
  | [] => some (p, [])
  | l :: rest =>
    if l.head? = some '%' then
      match p.add l with
      | some p => readPreamble p rest
      | none => none
    else if isIdle l then readPreamble p rest
    else some (p, l :: rest)

/-- Whether nothing follows the end of a document but idle lines and directives. -/
def isOver (c : Cursor) : Bool :=
  match lines c.rest with
  | [] => true
  | first :: rest =>
    let closing :=
      if c.column = 0 && isMarker first then
        match first with
        | '.' :: _ => (Gap.after ⟨first.drop 3, 3⟩).any fun g => g.cursor.rest.isEmpty
        | _ => false
      else isIdle first
    closing && rest.all fun l => l.head? = some '%' || isIdle l

/-- A document, and what beginnings of tags are short for in it. -/
structure Document where
  handles : List (String × String)
  root : Node

/-- A text whose lines all end with one character. -/
def unifyLineEnds : List Char → List Char
  | '\r' :: '\n' :: rest => '\n' :: unifyLineEnds rest
  | c :: rest => c :: unifyLineEnds rest
  | [] => []

/-- A text without the byte order mark before it. -/
def dropMark : List Char → List Char
  | c :: rest => if c.toNat = 0xFEFF then rest else c :: rest
  | [] => []

/-- Read a text that holds at most one document. -/
def readDocument (text : String) : Option Document := do
  let all := lines (unifyLineEnds (dropMark text.toList))
  let (preamble, body) ← readPreamble ⟨[("!!", "tag:yaml.org,2002:")], false⟩ all
  let start := (body.intersperse ['\n']).flatten
  let fuel := 4 * start.length + 16
  let place : Place := ⟨none, false⟩
  let isMarked := isMarker start && start.head? = some '-'
  if preamble.isOpen && !isMarked then none
  else
    let (root, c) ←
      if isMarked then readValue fuel place false ⟨start.drop 3, 3⟩
      else do
        let g ← Gap.ofLine start
        if g.cursor.atEnd then pure (.empty .none, ⟨start, 0⟩)
        else if place.isTabbed g then none
        else readNode fuel place .none true g
    let g ← Gap.after c
    if g.cursor.rest.isEmpty || (g.cursor.atEnd && isOver g.cursor) then
      some ⟨preamble.handles, root⟩
    else none

end Yaml
end ModuleBuild
