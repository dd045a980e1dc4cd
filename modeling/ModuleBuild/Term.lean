import ModuleBuild.Json.Printer
import ModuleBuild.Json.Reader
import ModuleBuild.Number.Numeral
import ModuleBuild.Text.Utf8

/-! # Terms: values as chunk payloads

A payload is JSON text.  What JSON cannot say is written as an object with the
member `$term`, which names the kind of value: large integers, `undefined` and
numbers that are not finite.  A record with a field of that name is itself
written so, as the list of its entries, and is never mistaken for a tag.

`Term.encode` refuses values that exist only at compile time.  `Term.decode`
reads any payload that is JSON text; a tag whose content does not fit is read as
the record it looks like.  A field that reads as `undefined` is left out of its
record.
-/
namespace ModuleBuild
namespace Term

/-- The member that marks a tagged value. -/
def tagName : String := "$term"

/-- A tagged document. -/
def tagged (kind : String) (content : List (String × Json)) : Json :=
  .object ((tagName, .text kind) :: content)

mutual

/-- The document that stands for a value. -/
def tag : Value → Except Foreign Json
  | .undefined => .ok (tagged "undefined" [])
  | .null => .ok .null
  | .bool b => .ok (.bool b)
  | .number x =>
    .ok (if x.isFinite then .number x else tagged "number" [("value", .text x.text)])
  | .bigint i => .ok (tagged "bigint" [("value", .text (toString i))])
  | .text s => .ok (.text s)
  | .list items => (tagItems items).map .list
  | .fields fs =>
    if (Value.findField tagName fs).isSome then
      (tagFields fs).map fun ms =>
        tagged "object" [("entries", .list (ms.map fun m => .list [.text m.1, m.2]))]
    else (tagFields fs).map .object
  | .foreign f => .error f

/-- The documents that stand for a list's items. -/
def tagItems : List Value → Except Foreign (List Json)
  | [] => .ok []
  | v :: rest => do
    let j ← tag v
    let js ← tagItems rest
    .ok (j :: js)

/-- The members that stand for a record's fields. -/
def tagFields : List (String × Value) → Except Foreign (List (String × Json))
  | [] => .ok []
  | (n, v) :: rest => do
    let j ← tag v
    let ms ← tagFields rest
    .ok ((n, j) :: ms)

end

/-- The entry that an item of an entry list is, if it is one. -/
def asMember? : Value → Option (String × Value)
  | .list [.text n, v] => some (n, v)
  | _ => none

/-- The value of an object whose members have been read. -/
def untagFields (fs : List (String × Value)) : Option Value :=
  let v := Value.fields fs
  match Value.findField tagName fs, v.get "value" with
  | some (.text "bigint"), .text s => (Numeral.integer? s).map .bigint
  | some (.text "undefined"), _ => some .undefined
  | some (.text "number"), .text s => some (.number (Numeral.number s))
  | some (.text "object"), _ =>
    match v.get "entries" with
    | .list items => some (Value.record (items.filterMap asMember?))
    | _ => some v
  | _, _ => some v

mutual

/-- The value that a document stands for; `none` if it holds a large integer that
is none. -/
def untag : Json → Option Value
  | .null => some .null
  | .bool b => some (.bool b)
  | .number x => some (.number x)
  | .text s => some (.text s)
  | .list items => (untagItems items).map .list
  | .object ms => do untagFields (← untagMembers ms)

/-- The values that items stand for. -/
def untagItems : List Json → Option (List Value)
  | [] => some []
  | j :: rest => do
    let v ← untag j
    let vs ← untagItems rest
    some (v :: vs)

/-- The fields that members stand for, without the undefined ones. -/
def untagMembers : List (String × Json) → Option (List (String × Value))
  | [] => some []
  | (n, j) :: rest => do
    let v ← untag j
    let fs ← untagMembers rest
    some (match v with
      | .undefined => fs
      | v => (n, v) :: fs)

end

/-- The payload of a value. -/
def encode (v : Value) : Except Foreign (List UInt8) :=
  (tag v).map fun j => Utf8.encode j.render

/-- The value of a payload; `none` if it is no JSON text or holds a malformed
large integer. -/
def decode (payload : List UInt8) : Option Value :=
  (Json.parse (Utf8.decode payload)).bind untag

/-- Why a value without a written form cannot be encoded. -/
def refusal (f : Foreign) : String :=
  let kind := match f with
    | .function _ _ _ => "function"
    | .symbol _ => "symbol"
    | .object c _ _ => c
  "cannot encode a " ++ kind ++ " in an artifact"

end Term
end ModuleBuild
