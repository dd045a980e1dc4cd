import ModuleBuild.Number.Numeral
import ModuleBuild.Value.Text
import ModuleBuild.Yaml.Reader
import ModuleBuild.Yaml.Timestamp

/-! # The values of YAML documents

A plain scalar stands for null, a truth value or a number if it reads as one, and for its
text otherwise; every other scalar stands for its text, unless its tag says more.  An
alias stands for what the last node with its anchor stands for.  The keys of a mapping
are made into texts, but no two keys of a mapping may be the same scalar.

`Yaml.parse` reads the value of a text.  It is the parser that the command line hands to
`Config.load`; nothing that is proved of configuration files depends on it, for they are
read by whatever parser the host has.  It knows the tags of the core schema and of points in
time; sets, ordered maps and binary scalars it reads as if they had no tag.
-/
namespace ModuleBuild
namespace Yaml

/-! ## Scalars -/

/-- What the tags of the core schema begin with. -/
def coreTag : String := "tag:yaml.org,2002:"

/-- The kinds of scalars that are more than text. -/
inductive ScalarKind where
  | null
  | bool
  | int
  | float
  deriving DecidableEq

namespace ScalarKind

/-- All kinds. -/
def all : List ScalarKind := [null, bool, int, float]

/-- The tag of a kind. -/
def tag : ScalarKind → String
  | null => coreTag ++ "null"
  | bool => coreTag ++ "bool"
  | int => coreTag ++ "int"
  | float => coreTag ++ "float"

end ScalarKind

/-- A text without a sign before it. -/
def unsigned : List Char → List Char
  | '+' :: rest => rest
  | '-' :: rest => rest
  | s => s

/-- Whether a text is a number with a point or an exponent. -/
def isDecimal (s : List Char) : Bool :=
  let (whole, rest) := (unsigned s).span Char.isDigit
  let (fraction, rest) :=
    match rest with
    | '.' :: rest => let (f, rest) := rest.span Char.isDigit; (some f, rest)
    | rest => (none, rest)
  let isMantissa := whole ≠ [] || (fraction.any fun f => f ≠ [])
  match rest with
  | [] => isMantissa && fraction.isSome
  | e :: rest =>
    let digits := unsigned rest
    isMantissa && (e = 'e' || e = 'E') && digits ≠ [] && digits.all Char.isDigit

/-- Whether a text is an integer in base ten, or after a mark in base eight or
sixteen. -/
def isInteger : List Char → Bool
  | '0' :: 'o' :: ds => ds ≠ [] && ds.all fun c => '0' ≤ c && c ≤ '7'
  | '0' :: 'x' :: ds => ds ≠ [] && ds.all fun c => (Hex.digit? c).isSome
  | s => unsigned s ≠ [] && (unsigned s).all Char.isDigit

/-- The number that is infinite or not a number, if a text names it. -/
def special? (s : String) : Option Number :=
  if [".nan", ".NaN", ".NAN"].contains s then some .nan
  else if [".inf", ".Inf", ".INF"].contains (String.ofList (unsigned s.toList)) then
    some (.infinite (s.toList.head? = some '-'))
  else none

/-- The value of a text that reads as a scalar of a kind. -/
def ScalarKind.read (k : ScalarKind) (s : String) : Option Value :=
  match k with
  | null => if ["", "~", "null", "Null", "NULL"].contains s then some .null else none
  | bool =>
    if ["true", "True", "TRUE"].contains s then some (.bool true)
    else if ["false", "False", "FALSE"].contains s then some (.bool false)
    else none
  | int => if isInteger s.toList then some (.number (Numeral.number s)) else none
  | float =>
    if isDecimal s.toList then some (.number (Numeral.number s)) else (special? s).map .number

/-- The value of a plain scalar. -/
def plainValue (s : String) : Value :=
  (ScalarKind.all.findSome? fun k => k.read s).getD (.text s)

/-- The tag of points in time.  No scalar stands for one without it. -/
def timeTag : String := coreTag ++ "timestamp"

/-- The value of a scalar with a tag.  A point in time must be one, and is an object; any other
tag that does not fit leaves the text. -/
def taggedValue (tag s : String) : Option Value :=
  if tag = timeTag then
    if isTimestamp s.toList then some (.foreign (.object "Date" (some s) s)) else none
  else some (((ScalarKind.all.find? fun k => k.tag = tag).bind fun k => k.read s).getD (.text s))

/-! ## Tags -/

/-- The name that a tag is written for.  A tag between angle brackets is written in full;
any other is a handle that is short for the beginning of a name, and the rest of it.  The
handle of one mark stands for itself. -/
def expandTag (handles : List (String × String)) (tag : String) : Option String :=
  match tag.toList with
  | ['!'] => some tag
  | '!' :: '<' :: rest =>
    let name := String.ofList rest.dropLast
    if rest.getLast? ≠ some '>' || name = "!" || name = "!!" then none else some name
  | cs =>
    let suffix := (cs.reverse.takeWhile (· ≠ '!')).reverse
    let handle := String.ofList (cs.take (cs.length - suffix.length))
    if suffix = [] then none
    else
      match handles.lookup handle with
      | some name => some (name ++ String.ofList suffix)
      | none => if handle = "!" then some tag else none

/-! ## Nodes -/

mutual

/-- A node as it is written on one line. -/
def Node.flowText : Node → String
  | .reference name => "*" ++ name
  | .scalar _ isPlain text => if isPlain then text else "\"" ++ text ++ "\""
  | .sequence _ [] => "[]"
  | .sequence _ items => "[ " ++ ", ".intercalate (flowTexts items) ++ " ]"
  | .mapping _ [] => "\x7b\x7d"
  | .mapping _ entries => "\x7b " ++ ", ".intercalate (entryTexts entries) ++ " \x7d"

/-- Nodes as they are written on one line. -/
def flowTexts : List Node → List String
  | [] => []
  | n :: rest => n.flowText :: flowTexts rest

/-- Entries as they are written on one line. -/
def entryTexts : List (Node × Node) → List String
  | [] => []
  | (k, v) :: rest => (k.flowText ++ ": " ++ v.flowText) :: entryTexts rest

end

/-- Whether two scalar values are the same key. -/
def sameKey : Value → Value → Bool
  | .null, .null => true
  | .bool a, .bool b => a = b
  | .text a, .text b => a = b
  | .number (.infinite a), .number (.infinite b) => a = b
  | .number (.finite a m), .number (.finite b n) => m = n && (a = b || m = .zero)
  | _, _ => false

/-- The field name that a key with a value makes. -/
def keyText (key : Node) : Value → String
  | .null => ""
  | .list _ => key.flowText
  | .fields _ => key.flowText
  | .foreign _ => key.flowText
  | v => v.toText.toOption.getD key.flowText

/-- Whether a key is the same scalar as one of the keys before it. -/
def isRepeated (key : Node) (v : Value) (earlier : List (Node × Value)) : Bool :=
  match key with
  | .scalar _ _ _ => earlier.any fun e =>
      match e.1 with
      | .scalar _ _ _ => sameKey e.2 v
      | _ => false
  | _ => false

/-- The anchors met so far with what they stand for, in order. -/
abbrev Anchors : Type := List (String × Value)

/-- What an alias stands for. -/
def Anchors.find? (as : Anchors) (name : String) : Option Value :=
  (as.reverse.find? fun a => a.1 = name).map Prod.snd

/-- Evaluation of nodes; it fails if the document is invalid. -/
abbrev Evaluation (α : Type) : Type := StateT Anchors Option α

/-- Evaluate a node with properties.  While a collection is evaluated, its anchor stands
for an empty record. -/
def withAnchor (handles : List (String × String)) (p : Props)
    (value : Option String → Evaluation Value) : Evaluation Value := do
  let tag ← match p.tag with
    | some t =>
      match expandTag handles t with
      | some t => pure (some t)
      | none => failure
    | none => pure none
  match p.anchor with
  | none => value tag
  | some a => do
    let place := (← get).length
    modify (· ++ [(a, .record [])])
    let v ← value tag
    modify (·.set place (a, v))
    pure v

mutual

/-- The value of a node. -/
def evaluate (handles : List (String × String)) : Node → Evaluation Value
  | .reference name => do
    match (← get).find? name with
    | some v => pure v
    | none => failure
  | .scalar p isPlain text =>
    withAnchor handles p fun tag =>
      match tag with
      | some t =>
        match taggedValue t text with
        | some v => pure v
        | none => failure
      | none => pure <| if isPlain then plainValue text else .text text
  | .sequence p items =>
    withAnchor handles p fun _ => .list <$> evaluateAll handles items
  | .mapping p entries =>
    withAnchor handles p fun _ => .record <$> evaluateEntries handles [] entries

/-- The values of nodes. -/
def evaluateAll (handles : List (String × String)) : List Node → Evaluation (List Value)
  | [] => pure []
  | n :: rest => do
    let v ← evaluate handles n
    let vs ← evaluateAll handles rest
    pure (v :: vs)

/-- The fields that entries make. -/
def evaluateEntries (handles : List (String × String)) (earlier : List (Node × Value)) :
    List (Node × Node) → Evaluation (List (String × Value))
  | [] => pure []
  | (key, node) :: rest => do
    let k ← evaluate handles key
    if isRepeated key k earlier then failure
    else
      let v ← evaluate handles node
      let fields ← evaluateEntries handles (earlier ++ [(key, k)]) rest
      pure ((keyText key k, v) :: fields)

end

/-- The value of a text; none if the text is invalid. -/
def parse (text : String) : Option Value := do
  let d ← readDocument text
  let (v, _) ← (evaluate d.handles d.root).run []
  some v

end Yaml
end ModuleBuild
