import ModuleBuild.Number.Decimal

/-! # Values

The dynamic values that attributes hold, functions return and artifacts store.
A record is a list of fields.  Records built by `Value.record` are in *field
order*: names that are array positions come first, ascending, the others follow
in the order of their first writing, and no name occurs twice.
-/
namespace ModuleBuild

/-- Values that exist only at compile time and that no artifact can hold.  How such a
value is shown, and the text that it has, are its own. -/
inductive Foreign where
  /-- A function by its source.  `answer` is the text it gives when it is asked for the
  text of a record, if it gives one. -/
  | function (source shown : String) (answer : Option String)
  /-- A symbol by its text. -/
  | symbol (text : String)
  /-- An object of the class with this name, without fields.  Not all objects have a
  text. -/
  | object (className : String) (text : Option String) (shown : String)
  deriving DecidableEq, Repr

/-- A dynamic value. -/
inductive Value where
  | undefined
  | null
  | bool (b : Bool)
  | number (x : Number)
  | bigint (i : Int)
  | text (s : String)
  | list (items : List Value)
  | fields (entries : List (String × Value))
  | foreign (kind : Foreign)

namespace Value

instance : Inhabited Value := ⟨undefined⟩

/-- The array position that a field name spells, if it spells one. -/
def position? (name : String) : Option Nat :=
  if name.toList.all Char.isDigit then
    let n := Nat.ofDigitChars 10 name.toList 0
    if n < 4294967295 ∧ Nat.toDigits 10 n = name.toList then some n else none
  else none

/-- Whether one field name goes before another regardless of writing order. -/
def positionBefore (a b : String) : Bool :=
  match position? a, position? b with
  | some m, some n => m < n
  | some _, none => true
  | none, _ => false

section Fields

variable {α : Type}

/-- Put a new field at its place: before the first field that it precedes. -/
def placeField (name : String) (v : α) : List (String × α) → List (String × α)
  | [] => [(name, v)]
  | (n, w) :: rest =>
    if positionBefore name n then (name, v) :: (n, w) :: rest
    else (n, w) :: placeField name v rest

/-- The field with a name. -/
def findField (name : String) : List (String × α) → Option α
  | [] => none
  | (n, w) :: rest => if n = name then some w else findField name rest

/-- Replace the value of a present field. -/
def replaceField (name : String) (v : α) : List (String × α) → List (String × α)
  | [] => []
  | (n, w) :: rest => if n = name then (n, v) :: rest else (n, w) :: replaceField name v rest

/-- Write a field: in place when present, at its place in field order when new. -/
def writeField (fs : List (String × α)) (name : String) (v : α) : List (String × α) :=
  if (findField name fs).isSome then replaceField name v fs else placeField name v fs

/-- The fields that result from writing entries in turn: in field order, the last
value of each name. -/
def fieldsOf (entries : List (String × α)) : List (String × α) :=
  entries.foldl (fun fs e => writeField fs e.1 e.2) []

end Fields

/-- The record that results from writing entries in turn. -/
def record (entries : List (String × Value)) : Value := fields (fieldsOf entries)

/-- The value of a record's field; `undefined` for absent fields and for values
that are no records. -/
def get (v : Value) (name : String) : Value :=
  match v with
  | fields fs => (findField name fs).getD undefined
  | _ => undefined

/-- Whether a record has a field, of whatever value. -/
def has (v : Value) (name : String) : Bool :=
  match v with
  | fields fs => (findField name fs).isSome
  | _ => false

/-- Records, and objects of classes, which are records without fields. -/
def isRecord : Value → Bool
  | fields _ => true
  | foreign (.object _ _ _) => true
  | _ => false

/-- The truth value, if the value is one. -/
def asBool? : Value → Option Bool
  | bool b => some b
  | _ => none

/-- The text, if the value is one. -/
def asText? : Value → Option String
  | text s => some s
  | _ => none

/-- The number, if the value is one. -/
def asNumber? : Value → Option Number
  | number x => some x
  | _ => none

/-- The integer, if the value is a number that is one. -/
def asInt? (v : Value) : Option Int := v.asNumber?.bind Number.toInt?

/-- The items, if the value is a list. -/
def asList? : Value → Option (List Value)
  | list items => some items
  | _ => none

/-- Whether there is a value. -/
def isDefined : Value → Bool
  | undefined => false
  | _ => true

/-- Whether a value counts as true: all do but false, zero, the empty text and those
that stand for no value. -/
def truth : Value → Bool
  | undefined => false
  | null => false
  | bool b => b
  | number .nan => false
  | number (.finite _ m) => m.val ≠ 0
  | bigint i => i ≠ 0
  | text s => s ≠ ""
  | _ => true

/-- The value, unless it stands for none. -/
def ifGiven : Value → Option Value
  | undefined => none
  | null => none
  | v => some v

/-- The text in a field, empty if there is none. -/
def textAt (v : Value) (name : String) : String := ((v.get name).asText?).getD ""

/-- The integer in a field, zero if there is none. -/
def intAt (v : Value) (name : String) : Int := ((v.get name).asInt?).getD 0

/-- The list in a field, empty if there is none. -/
def listAt (v : Value) (name : String) : List Value := ((v.get name).asList?).getD []

/-- The value of an integer. -/
def int (i : Int) : Value := number (Number.ofInt i)

/-- The value of an optional thing, `undefined` when there is none. -/
def ofOption {α : Type} (f : α → Value) (x : Option α) : Value := (x.map f).getD undefined

end Value
end ModuleBuild
