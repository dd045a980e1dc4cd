import ModuleBuild.Text.Hex
import ModuleBuild.Text.Units
import ModuleBuild.Yaml.Cursor

/-! # Scalars of YAML text

Scalars are written plain, between single or double quotes, or as blocks of lines.
Except in literal blocks, single line ends are read as spaces, and one of several is
dropped.
-/
namespace ModuleBuild
namespace Yaml

/-- The lines of a text. -/
def lines (s : List Char) : List (List Char) := s.splitOn '\n'

/-- A line without the blanks before it. -/
def trimLeft (l : List Char) : List Char := l.dropWhile isBlank

/-- A line without the blanks after it. -/
def trimRight (l : List Char) : List Char := (l.reverse.dropWhile isBlank).reverse

/-- Put the lines after the first together: `done` is what stands before them, and
`gap` what goes between it and the next line. -/
def foldRest (done : List Char) (gap : Char) : List (List Char) → List Char
  | [] => done
  | [last] => done ++ gap :: trimLeft last
  | l :: rest =>
    let l := trimLeft (trimRight l)
    if l = [] then
      if gap = '\n' then foldRest (done ++ ['\n']) '\n' rest else foldRest done '\n' rest
    else foldRest (done ++ gap :: l) ' ' rest

/-- The text of lines that are folded. -/
def foldLines (s : List Char) : List Char :=
  match lines s with
  | [] => []
  | [only] => only
  | first :: rest => foldRest (trimRight first) ' ' rest

/-! ## Plain scalars -/

/-- What the walk through a plain scalar has seen. -/
structure PlainWalk where
  /-- The characters up to the last that is no blank, the last one first. -/
  done : List Char
  /-- The blanks after them, the last one first. -/
  pending : List Char
  /-- The place after `done`. -/
  finish : Cursor
  column : Nat

/-- Walk to the end of a plain scalar. -/
def walkPlain (inFlow : Bool) (least : Nat) (w : PlainWalk) : List Char → PlainWalk
  | [] => w
  | c :: rest =>
    if isBlank c then
      if rest.head? = some '#' || (inFlow && flowMarkAhead rest) then w
      else if c = '\n' then
        if continues least rest then
          walkPlain inFlow least { w with pending := c :: w.pending, column := 0 } rest
        else w
      else
        walkPlain inFlow least { w with pending := c :: w.pending, column := w.column + 1 } rest
    else if c = ':' && (blankAhead rest || (inFlow && flowMarkAhead rest)) then w
    else if inFlow && isFlowMark c then w
    else
      let column := w.column + 1
      walkPlain inFlow least ⟨c :: (w.pending ++ w.done), [], ⟨rest, column⟩, column⟩ rest

/-- Whether a plain scalar may begin with a character. -/
def startsPlain (c : Char) : Bool :=
  let marks : List Char := ['#', '&', '*', '!', '|', '>', '\'', '"', '%', '@', '\x60']
  !(isBlank c || isFlowMark c || marks.contains c)

/-- Read a plain scalar, of which later lines are indented by `least`. -/
def readPlain (inFlow : Bool) (least : Nat) (c : Cursor) : Option (String × Cursor) :=
  match c.rest with
  | x :: rest =>
    let isMark := (x = '-' || x = '?' || x = ':') &&
      (blankAhead rest || (inFlow && flowMarkAhead rest))
    if startsPlain x && !isMark then
      let w := walkPlain inFlow least ⟨[], [], c, c.column⟩ c.rest
      some (String.ofList (foldLines w.done.reverse), w.finish)
    else none
  | [] => none

/-! ## Quoted scalars -/

/-- Walk to the closing quote; every line after the first must continue the scalar.
The characters between the quotes are kept as they are written. -/
def walkQuoted (quote : Char) (least : Nat) (column : Nat) :
    List Char → Option (List Char × Cursor)
  | [] => none
  | '\n' :: rest =>
    if continues least rest then
      (walkQuoted quote least 0 rest).map fun r => ('\n' :: r.1, r.2)
    else none
  | '\\' :: c :: rest =>
    if quote = '"' then
      if c = '\n' && !continues least rest then none
      else (walkQuoted quote least (column + 2) rest).map fun r => ('\\' :: c :: r.1, r.2)
    else (walkQuoted quote least (column + 1) (c :: rest)).map fun r => ('\\' :: r.1, r.2)
  | '\'' :: '\'' :: rest =>
    if quote = '\'' then
      (walkQuoted quote least (column + 2) rest).map fun r => ('\'' :: r.1, r.2)
    else (walkQuoted quote least (column + 2) rest).map fun r => ('\'' :: '\'' :: r.1, r.2)
  | c :: rest =>
    if c = quote then some ([], ⟨rest, column + 1⟩)
    else (walkQuoted quote least (column + 1) rest).map fun r => (c :: r.1, r.2)

/-- The character that an escape letter stands for. -/
def escaped? : Char → Option Nat
  | '0' => some 0x00
  | 'a' => some 0x07
  | 'b' => some 0x08
  | 'e' => some 0x1B
  | 'f' => some 0x0C
  | 'n' => some 0x0A
  | 'r' => some 0x0D
  | 't' => some 0x09
  | '\t' => some 0x09
  | 'v' => some 0x0B
  | 'N' => some 0x85
  | '_' => some 0xA0
  | 'L' => some 0x2028
  | 'P' => some 0x2029
  | ' ' => some 0x20
  | '"' => some 0x22
  | '/' => some 0x2F
  | '\\' => some 0x5C
  | _ => none

/-- The units of the character with a number, if there is one. -/
def unitsOf? (n : Nat) : Option (List Nat) :=
  if n < 0x10000 then some [n]
  else if n < 0x110000 then some (Text.charUnits (Char.ofNat n))
  else none

/-- The state in the middle of a double-quoted text. -/
inductive Fold where
  /-- Blanks that are kept unless a line ends after them. -/
  | blanks (pending : List Nat)
  /-- After a line end, with so many more line ends. -/
  | newlines (more : Nat)
  /-- After an escaped line end. -/
  | trimmed

/-- What has to be written before the next character. -/
def Fold.flush : Fold → List Nat
  | blanks pending => pending
  | newlines 0 => [0x20]
  | newlines more => List.replicate more 0x0A
  | trimmed => []

/-- The units of a double-quoted text: lines folded and escapes replaced. -/
def unescape (f : Fold) : List Char → Option (List Nat)
  | [] => some f.flush
  | '\n' :: rest =>
    match f with
    | .newlines more => unescape (.newlines (more + 1)) rest
    | _ => unescape (.newlines 0) rest
  | '\\' :: '\n' :: rest => (unescape .trimmed rest).map (f.flush ++ ·)
  | '\\' :: 'x' :: a :: b :: rest => do
    let us ← unitsOf? (← Hex.number? [a, b])
    (unescape (.blanks []) rest).map (f.flush ++ us ++ ·)
  | '\\' :: 'u' :: a :: b :: c :: d :: rest => do
    let us ← unitsOf? (← Hex.number? [a, b, c, d])
    (unescape (.blanks []) rest).map (f.flush ++ us ++ ·)
  | '\\' :: 'U' :: a :: b :: c :: d :: e :: g :: h :: i :: rest => do
    let us ← unitsOf? (← Hex.number? [a, b, c, d, e, g, h, i])
    (unescape (.blanks []) rest).map (f.flush ++ us ++ ·)
  | '\\' :: c :: rest => do
    let u ← escaped? c
    (unescape (.blanks []) rest).map (f.flush ++ u :: ·)
  | c :: rest =>
    if isBlank c then
      match f with
      | .blanks pending => unescape (.blanks (pending ++ [c.toNat])) rest
      | f => unescape f rest
    else (unescape (.blanks []) rest).map (f.flush ++ Text.charUnits c ++ ·)

/-- Read a quoted scalar; the cursor stands at its opening quote. -/
def readQuoted (least : Nat) (c : Cursor) : Option (String × Cursor) :=
  match c.rest with
  | '\'' :: rest =>
    (walkQuoted '\'' least (c.column + 1) rest).map fun r => (String.ofList (foldLines r.1), r.2)
  | '"' :: rest => do
    let (written, c) ← walkQuoted '"' least (c.column + 1) rest
    let units ← unescape (.blanks []) written
    some (String.ofList (Text.ofUnits units), c)
  | _ => none

/-! ## Block scalars -/

/-- What becomes of the line ends after a block. -/
inductive Chomp where
  | strip
  | clip
  | keep
  deriving DecidableEq

/-- The head of a block scalar. -/
structure BlockHead where
  isFolded : Bool
  /-- The indentation that is asked for, zero if it is found from the lines. -/
  indent : Nat
  /-- What becomes of the line ends, if that is said. -/
  chomp : Option Chomp

/-- Read the indicators of a head, up to a blank or a comment. -/
def readIndicators (h : BlockHead) : List Char → Option BlockHead
  | [] => some h
  | c :: rest =>
    if c = '-' && h.chomp.isNone then readIndicators { h with chomp := some .strip } rest
    else if c = '+' && h.chomp.isNone then readIndicators { h with chomp := some .keep } rest
    else if '1' ≤ c ∧ c ≤ '9' ∧ h.indent = 0 then
      readIndicators { h with indent := c.toNat - '0'.toNat } rest
    else none

/-- A line of a block: how many spaces it begins with, and what follows them. -/
structure BlockLine where
  indent : Nat
  content : List Char

/-- A line as a line of a block. -/
def BlockLine.ofLine (l : List Char) : BlockLine := ⟨spaces l, l.dropWhile (· = ' ')⟩

/-- The spaces of a line beyond an indentation. -/
def BlockLine.excess (l : BlockLine) (indent : Nat) : List Char :=
  List.replicate (l.indent - indent) ' '

/-- The lines that belong to a block: those that are empty or indented by `least`, and
that are no mark between documents where nothing is asked. -/
def takeBlock (least : Nat) : List (List Char) → List (List Char)
  | [] => []
  | l :: rest =>
    let line := BlockLine.ofLine l
    let belongs :=
      if least = 0 then !isMarker l else line.content = [] || least ≤ line.indent
    if belongs then l :: takeBlock least rest else []

/-- Put the lines of a block together.  In a folded block a line end between two lines
that are indented alike is read as a space; lines that are indented further keep
theirs. -/
def joinLines (isFolded : Bool) (indent : Nat) (done gap : List Char) (further : Bool) :
    List BlockLine → List Char
  | [] => done
  | l :: rest =>
    let text := l.excess indent ++ l.content
    if !isFolded then joinLines isFolded indent (done ++ gap ++ text) ['\n'] further rest
    else if indent < l.indent || l.content.head? = some '\t' then
      let gap :=
        if gap = [' '] then ['\n']
        else if !further && gap = ['\n'] then ['\n', '\n']
        else gap
      joinLines isFolded indent (done ++ gap ++ text) ['\n'] true rest
    else if l.content = [] then
      if gap = ['\n'] then joinLines isFolded indent (done ++ ['\n']) gap further rest
      else joinLines isFolded indent done ['\n'] further rest
    else joinLines isFolded indent (done ++ gap ++ l.content) [' '] false rest

/-- The text of a block whose node is indented by `parent`.  The lines are given up to
and with the empty one after the last line end. -/
def blockText (h : BlockHead) (parent : Nat) (ls : List BlockLine) : Option (List Char) :=
  let isEmpty := fun (l : BlockLine) => l.content.isEmpty
  let trailing := (ls.reverse.takeWhile isEmpty).length
  let body := ls.take (ls.length - trailing)
  let leading := body.takeWhile isEmpty
  match body.drop leading.length with
  | [] =>
    let isBlank := 1 < ls.length || ls.any fun l => l.indent ≠ 0
    some (if h.chomp = some .keep && isBlank then List.replicate (max 1 (ls.length - 1)) '\n'
      else [])
  | first :: rest =>
    let least :=
      if h.indent = 0 then (leading.map BlockLine.indent).foldl max parent else parent + h.indent
    if first.indent < least then none
    else
      let indent := if h.indent = 0 then first.indent else least
      let tail := ls.drop body.length
      let kept := (tail.reverse.dropWhile fun l => l.indent ≤ indent).reverse
      let text := (leading.flatMap fun l => l.excess indent ++ ['\n'])
        ++ joinLines h.isFolded indent [] [] false (first :: rest ++ kept)
      some <| match h.chomp with
        | some .strip => text
        | some .keep =>
          let text := text ++ (tail.drop kept.length).flatMap fun l => '\n' :: l.excess indent
          if text.getLast? = some '\n' then text else text ++ ['\n']
        | _ => text ++ ['\n']

/-- The lines of a block among those below its head.  The first line that is not empty
has to be indented further than the node that the block stands in. -/
def blockLines (h : BlockHead) (parent : Option Nat) (below : List (List Char)) :
    List (List Char) :=
  let isEmpty := fun l => (BlockLine.ofLine l).content.isEmpty
  let found := spaces ((below.dropWhile isEmpty).headD [])
  if (parent.map (· + 1)).getD 0 ≤ found then
    takeBlock (if h.indent = 0 then found else parent.getD 0 + h.indent) below
  else below.takeWhile isEmpty

/-- Read a block scalar in a node that is indented by `parent`, or stands by itself; the
cursor stands at the head.  The place after it is the end of its last line. -/
def readBlock (parent : Option Nat) (c : Cursor) : Option (String × Cursor) :=
  match c.rest with
  | [] => none
  | mark :: rest => do
    let line := rest.takeWhile (· ≠ '\n')
    let indicators := line.takeWhile fun x => !isBlank x && x ≠ '#'
    let h ← readIndicators ⟨mark = '>', 0, none⟩ indicators
    let g ← Gap.after ⟨line.drop indicators.length, 0⟩
    if g.cursor.rest ≠ [] then none
    else
      let below := if rest.length = line.length then [] else lines (rest.drop (line.length + 1))
      let block := blockLines h parent below
      let closed := if block.length < below.length then block ++ [[]] else block
      let text ← blockText h (parent.getD 0) (closed.map BlockLine.ofLine)
      let taken := block.foldl (fun n l => n + l.length + 1) line.length
      some (String.ofList text, ⟨rest.drop taken, 1⟩)

end Yaml
end ModuleBuild
