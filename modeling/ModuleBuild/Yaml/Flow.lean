import ModuleBuild.Yaml.Node
import ModuleBuild.Yaml.Scalar

/-! # Flow style

In flow style brackets and commas say what belongs where, and lines only have to be
indented further than the node that the collection stands in.  Tags and anchors stand
before the node that they belong to, in either style.

The reading steps carry a bound on their depth.
-/
namespace ModuleBuild
namespace Yaml

/-! ## Tags, anchors and aliases -/

/-- Whether a character may stand in a tag. -/
def isTagChar (c : Char) : Bool := c.isAlphanum || "-#;/?:@&=+$_.!~*'()".toList.contains c

/-- How many characters of a tag a text begins with; a percent sign stands before two
hexadecimal digits. -/
def tagLength : List Char → Nat
  | '%' :: a :: b :: rest =>
    if (Hex.number? [a, b]).isSome then tagLength rest + 3 else 0
  | c :: rest => if isTagChar c then tagLength rest + 1 else 0
  | [] => 0

/-- Read a tag; the cursor stands at its exclamation mark. -/
def readTag (c : Cursor) : String × Cursor :=
  let n :=
    match c.rest with
    | '!' :: '<' :: rest =>
      let name := rest.takeWhile fun x => !isBlank x && x ≠ '>'
      2 + name.length + if rest[name.length]? = some '>' then 1 else 0
    | _ :: rest => 1 + tagLength rest
    | [] => 0
  (String.ofList (c.rest.take n), c.skip n)

/-- Read a name after its mark. -/
def readName (c : Cursor) : Option (String × Cursor) :=
  let name := (c.rest.drop 1).takeWhile fun x => !isBlank x && !isFlowMark x
  if name = [] then none else some (String.ofList name, c.skip (1 + name.length))

/-- Read the tag or anchor at a place, if there is one.  It must be set off from what
follows; inside a flow collection a comma or the end of the collection will do. -/
def readProp (inFlow : Bool) (c : Cursor) : Option (Option (Props × Cursor)) := do
  let (p, d) ← match c.rest.head? with
    | some '!' => let (t, d) := readTag c; some (⟨some t, none⟩, d)
    | some '&' => (readName c).map fun (n, d) => (⟨none, some n⟩, d)
    | _ => some (Props.none, c)
  if p = .none then some none
  else
    let isSetOff := blankAhead d.rest ||
      (inFlow && (d.rest.head? = some ',' || d.rest.head? = some ']' || d.rest.head? = some '\x7d'))
    if isSetOff then some (some (p, d)) else none

/-- Read the tags and anchors that follow each other on one line. -/
def readProps (fuel : Nat) (p : Props) (c : Cursor) : Option (Props × Cursor) :=
  match fuel with
  | 0 => none
  | fuel + 1 => do
    match ← readProp false c.blanks with
    | some (q, d) => readProps fuel (← p.join q) d
    | none => some (p, c)

/-! ## Flow style -/

/-- Whether a key written at `c` and ending at `d` can be followed by a colon: it stands
on one line and is no longer than 1024 characters. -/
def isKeySpan (c d : Cursor) : Bool :=
  let span := c.upTo d
  !span.contains '\n' && decide (span.length ≤ 1024)

/-- The gap inside a flow collection.  A new line has to be indented by `least`; only the
bracket that closes the outermost collection may stand one less. -/
def flowGap (least depth : Nat) (c : Cursor) : Option Cursor := do
  let g ← Gap.after c
  let closes := depth = 1 && g.indent + 1 = least &&
    (g.cursor.rest.head? = some ']' || g.cursor.rest.head? = some '\x7d')
  if g.cursor.rest.isEmpty then none
  else if g.hasNewline && ((g.indent < least && !closes) || g.cursor.atEnd) then none
  else some g.cursor

/-- Whether the colon of a pair stands at a place.  After a quoted scalar or a bracket it
need not be set off. -/
def atFlowColon (key : List Char) (c : Cursor) : Bool :=
  c.atFlowIndicator ':' ||
    (c.rest.head? = some ':' &&
      (match key.getLast? with
        | some x => x = '"' || x = '\'' || x = ']' || x = '\x7d'
        | none => false))

mutual

/-- Read a node inside a flow collection; nothing may be written for it. -/
def flowNode (fuel least depth : Nat) (p : Props) (c : Cursor) : Option (Node × Cursor) :=
  match fuel with
  | 0 => none
  | fuel + 1 => do
    match ← readProp true c with
    | some (q, d) =>
      let p ← p.join q
      match flowGap least depth d with
      | some d => flowNode fuel least depth p d
      | none => none
    | none =>
      let node (n : Node) (d : Cursor) : Option (Node × Cursor) := do some (← n.withProps p, d)
      match c.rest.head? with
      | some '[' => do
        let (items, d) ← flowItems fuel least (depth + 1) [] (c.skip 1)
        node (.sequence .none items) d
      | some '\x7b' => do
        let (entries, d) ← flowEntries fuel least (depth + 1) [] (c.skip 1)
        node (.mapping .none entries) d
      | some '*' => do
        let (name, d) ← readName c
        node (.reference name) d
      | some '"' => do
        let (text, d) ← readQuoted least c
        node (.scalar .none false text) d
      | some '\'' => do
        let (text, d) ← readQuoted least c
        node (.scalar .none false text) d
      | some x =>
        if x = ',' || x = ']' || x = '\x7d' || c.atFlowIndicator ':' then some (.empty p, c)
        else do
          let (text, d) ← readPlain true least c
          node (.scalar .none true text) d
      | none => none

/-- Read the key of a pair and, after a colon, its value.  The last part says whether
there was a mark of a pair. -/
def flowPair (fuel least depth : Nat) (inSequence : Bool) (c : Cursor) :
    Option ((Node × Node × Bool) × Cursor) :=
  match fuel with
  | 0 => none
  | fuel + 1 => do
    let isExplicit := c.atFlowIndicator '?'
    let start ← if isExplicit then flowGap least depth (c.skip 1) else some c
    let (key, d) ← flowNode fuel least depth .none start
    let e ← flowGap least depth d
    if atFlowColon (start.upTo d) e then
      if inSequence && !isExplicit && !isKeySpan start e then none
      else
        let (value, d) ← flowNode fuel least depth .none (← flowGap least depth (e.skip 1))
        some ((key, value, true), d)
    else some ((key, .empty .none, isExplicit), d)

/-- Read the items of a sequence up to its closing bracket. -/
def flowItems (fuel least depth : Nat) (items : List Node) (c : Cursor) :
    Option (List Node × Cursor) :=
  match fuel with
  | 0 => none
  | fuel + 1 => do
    let c ← flowGap least depth c
    if c.rest.head? = some ']' then some (items, c.skip 1)
    else if c.rest.head? = some ',' then none
    else
      let ((key, value, isPair), d) ← flowPair fuel least depth true c
      let items := items ++ [if isPair then .mapping .none [(key, value)] else key]
      let e ← flowGap least depth d
      match e.rest.head? with
      | some ',' => flowItems fuel least depth items (e.skip 1)
      | some ']' => some (items, e.skip 1)
      | _ => none

/-- Read the entries of a mapping up to its closing bracket. -/
def flowEntries (fuel least depth : Nat) (entries : List (Node × Node)) (c : Cursor) :
    Option (List (Node × Node) × Cursor) :=
  match fuel with
  | 0 => none
  | fuel + 1 => do
    let c ← flowGap least depth c
    if c.rest.head? = some '\x7d' then some (entries, c.skip 1)
    else if c.rest.head? = some ',' then none
    else
      let ((key, value, _), d) ← flowPair fuel least depth false c
      let entries := entries ++ [(key, value)]
      let e ← flowGap least depth d
      match e.rest.head? with
      | some ',' => flowEntries fuel least depth entries (e.skip 1)
      | some '\x7d' => some (entries, e.skip 1)
      | _ => none

end

end Yaml
end ModuleBuild
