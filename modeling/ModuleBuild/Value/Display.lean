import ModuleBuild.Text.Units
import ModuleBuild.Value.Basic

/-! # Displayed values

How a value is shown to the author of a module when it is not what was expected:
texts are quoted, lists and records are bracketed, what nests too deeply is
abbreviated, and a list or record that does not fit on a line takes one line per
entry, or several columns if it is a long list of short items.
-/
namespace ModuleBuild
namespace Display

/-- The length a line may have. -/
def lineWidth : Nat := 80

/-- How deeply lists and records are shown. -/
def maxDepth : Nat := 2

/-- One character inside quotes. -/
def escapeChar (quote c : Char) : String :=
  if c = quote then "\\" ++ c.toString
  else if c = '\\' then "\\\\"
  else if c = '\n' then "\\n"
  else if c = '\t' then "\\t"
  else if c = '\r' then "\\r"
  else if c = '\x08' then "\\b"
  else if c = '\x0c' then "\\f"
  else if c.toNat < 0x20 ∨ (0x7F ≤ c.toNat ∧ c.toNat ≤ 0x9F) then
    let hex := (Nat.toDigits 16 c.toNat).map Char.toUpper
    "\\x" ++ String.ofList (List.replicate (2 - hex.length) '0' ++ hex)
  else c.toString

/-- Whether a text opens a substitution between backticks. -/
def hasSubstitution : List Char → Bool
  | '$' :: '\x7b' :: _ => true
  | _ :: rest => hasSubstitution rest
  | [] => false

/-- The quotation mark of a text: the first of `'`, `"` and the backtick that the
text does not hold, else `'`. -/
def quoteMark (s : String) : Char :=
  let cs := s.toList
  if !cs.contains '\'' then '\''
  else if !cs.contains '"' then '"'
  else if !cs.contains '\x60' && !hasSubstitution cs then '\x60'
  else '\''

/-- A text between quotation marks. -/
def quoted (s : String) : String :=
  let q := quoteMark s
  q.toString ++ String.join (s.toList.map (escapeChar q)) ++ q.toString

/-- Cut a text after each line end. -/
def lines : List Char → List Char → List (List Char)
  | acc, [] => if acc = [] then [] else [acc.reverse]
  | acc, '\n' :: rest => ('\n' :: acc).reverse :: lines [] rest
  | acc, c :: rest => lines (c :: acc) rest

/-- A text as a value: one that is long and has several lines is cut into quoted
lines. -/
def shownText (indent : Nat) (s : String) : String :=
  let n := Text.unitLength s
  if 16 < n ∧ lineWidth - indent - 4 < n then
    (" +\n" ++ String.ofList (List.replicate (indent + 2) ' ')).intercalate
      ((lines [] s.toList).map fun l => quoted (String.ofList l))
  else quoted s

/-- Whether a field name is shown without quotation marks. -/
def isPlainName (s : String) : Bool :=
  match s.toList with
  | [] => false
  | c :: rest =>
    (c.isAlpha || c = '_') && rest.all fun c => c.isAlphanum || c = '_'

/-- A field name as shown. -/
def shownName (s : String) : String :=
  if s = "__proto__" then "['__proto__']"
  else if isPlainName s then s
  else quoted s

/-- Lines between brackets. -/
def onLines (indent : Nat) (opening closing : String) (ls : List String) : String :=
  let line := "\n" ++ String.ofList (List.replicate indent ' ')
  opening ++ line ++ "  " ++ (("," ++ line ++ "  ").intercalate ls) ++ line ++ closing

/-- Entries between brackets: on one line if they fit, else a line each. -/
def bracketed (indent : Nat) (opening closing : String) (entries : List String) : String :=
  if entries = [] then opening ++ closing
  else
    let total :=
      entries.foldl (fun n e => n + Text.unitLength e) 0 + 2 * entries.length + 11 + indent
    if total ≤ lineWidth ∧ entries.all (fun e => !e.toList.contains '\n') then
      opening ++ " " ++ ", ".intercalate entries ++ " " ++ closing
    else onLines indent opening closing entries

/-! ## Long lists

A list of more than six items is set in columns if its items are short and of similar
length.  There are as many columns as make the block closest to a square, a character
being two and a half times as high as wide.
-/

/-- How many items of a list are shown. -/
def maxItems : Nat := 100

/-- How many places a text takes on a line: control characters take none. -/
def width (s : String) : Nat := s.toList.countP fun c => 0x20 ≤ c.toNat

/-- Whether `k` columns are no more than a square has.  The `n` items take `total` places
and the widest `widest`, with a comma and a blank for each; `entries` counts the note on
what is left out as well.  What a column counts with is the number of places
`widest - 3 - √(widest - total / entries)`, and one at least. -/
def fitsSquare (widest total n entries k : Nat) : Bool :=
  let c := (2 * k - 1) * (2 * k - 1)
  let excess := c * (widest - 3) - 10 * n
  c ≤ 10 * n && excess * excess * entries ≤ c * c * (widest * entries - total)

/-- In how many columns items of some widths are set, if in more than one. -/
def columns? (indent : Nat) (widths : List Nat) (entries : Nat) : Option Nat :=
  let total := widths.foldl (fun total w => total + w + 2) 0
  let longest := widths.foldl max 0
  let widest := longest + 2
  if widest * 3 + indent < lineWidth ∧ (5 * widest < total ∨ longest ≤ 6) then
    let most := min ((lineWidth - indent) / widest) 12
    ((List.range (most + 1)).reverse.find?
      (fitsSquare widest total widths.length entries)).filter (1 < ·)
  else none

/-- Fill a text up with blanks, in front of it or after it. -/
def padded (inFront : Bool) (places : Nat) (s : String) : String :=
  let blanks := String.ofList (List.replicate (places - width s) ' ')
  if inFront then blanks ++ s else s ++ blanks

/-- One row of a block.  Numbers are set flush right, and only then is the last item of a
row filled up. -/
def row (numeric : Bool) (places : List Nat) (items : List String) : String :=
  String.join ((items.zip places).mapIdx fun j e =>
    if j + 1 < items.length then padded numeric e.2 (e.1 ++ ", ")
    else if numeric then padded true (e.2 - 2) e.1
    else e.1)

/-- A block of items in `k` columns. -/
def block (numeric : Bool) (k : Nat) (items : List String) : List String :=
  let rows := (List.range ((items.length + k - 1) / k)).map fun i => (items.drop (i * k)).take k
  let places := (List.range k).map fun j =>
    (rows.map fun r => (r[j]?.map width).getD 0).foldl max 0 + 2
  rows.map (row numeric places)

/-- The shown items of a list between brackets, `more` items being left out. -/
def shownList (indent : Nat) (numeric : Bool) (items : List String) (more : Nat) : String :=
  let note :=
    if more = 0 then []
    else ["... " ++ toString more ++ " more item" ++ (if more = 1 then "" else "s")]
  let entries := items ++ note
  match columns? indent (items.map width) entries.length with
  | some k =>
    if 6 < entries.length then onLines indent "[" "]" (block numeric k items ++ note)
    else bracketed indent "[" "]" entries
  | none => bracketed indent "[" "]" entries

end Display

/-- How a value that exists only at compile time is shown. -/
def Foreign.display : Foreign → String
  | function _ shown _ => shown
  | symbol text => text
  | object _ _ shown => shown

namespace Value

/-- Whether a value is a number, of either kind. -/
def isNumeric : Value → Bool
  | number _ => true
  | bigint _ => true
  | _ => false

mutual

/-- A value as shown at a nesting depth and indentation. -/
def displayAt (depth indent : Nat) : Value → String
  | undefined => "undefined"
  | null => "null"
  | bool b => if b then "true" else "false"
  | number (.finite true m) => if m.val = 0 then "-0" else (Number.finite true m).text
  | number x => x.text
  | bigint i => toString i ++ "n"
  | text s => Display.shownText indent s
  | list items =>
    if !items.isEmpty && Display.maxDepth < depth then "[Array]"
    else
      Display.shownList indent ((items.take (Display.maxItems + 1)).all isNumeric)
        ((displayItems (depth + 1) (indent + 2) items).take Display.maxItems)
        (items.length - Display.maxItems)
  | fields fs =>
    if !fs.isEmpty && Display.maxDepth < depth then "[Object]"
    else Display.bracketed indent "\x7b" "\x7d" (displayFields (depth + 1) (indent + 2) fs)
  | foreign f => f.display

/-- The shown items of a list. -/
def displayItems (depth indent : Nat) : List Value → List String
  | [] => []
  | v :: rest => displayAt depth indent v :: displayItems depth indent rest

/-- The shown fields of a record. -/
def displayFields (depth indent : Nat) : List (String × Value) → List String
  | [] => []
  | (n, v) :: rest =>
    (Display.shownName n ++ ": " ++ displayAt depth indent v) :: displayFields depth indent rest

end

/-- A value as shown. -/
def display (v : Value) : String := displayAt 0 0 v

end Value
end ModuleBuild
