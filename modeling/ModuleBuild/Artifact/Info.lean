import ModuleBuild.Artifact.Basic
import ModuleBuild.Artifact.Introspection
import ModuleBuild.Term

/-! # Answers of a compiled module

The answers that the injected function gives, read back from the `Info` chunk.
Every answer must have the declared shape.  A list keeps the places of items that
read as `undefined`, and nothing is asked of those.
-/
namespace ModuleBuild

/-- The answers of a compiled module; a place whose item is undefined has none. -/
structure InfoAnswers where
  attributes : List (Option (String × Value))
  compileOptions : List Value
  exports : List (Option (String × Number))
  functions : List (Option (String × Number))
  macros : List (Option (String × Number))
  checksum : String
  module : String
  nativeAddresses : List Value

/-- Why what a chunk holds cannot be read. -/
inductive ContentError where
  | malformed (condition : Condition)
  /-- The payload is no term. -/
  | unreadable

namespace InfoAnswers

/-- An answer without the declared shape. -/
def malformed {α : Type} (reason : String) : Except ContentError α :=
  .error (.malformed (.chunkInvalid reason))

/-- A list. -/
def listOf (kind : InfoKind) (v : Value) : Except ContentError (List Value) :=
  match v with
  | .list items => .ok items
  | _ => malformed ("Info " ++ kind.name ++ " is not a list")

/-- A text. -/
def textOf (kind : InfoKind) (v : Value) : Except ContentError String :=
  match v with
  | .text s => .ok s
  | _ => malformed ("Info " ++ kind.name ++ " is not a string")

/-- Read the items of a list that are there. -/
def readItems {α : Type} (f : Value → Except ContentError α) :
    List Value → Except ContentError (List (Option α))
  | [] => .ok []
  | .undefined :: rest => (readItems f rest).map (none :: ·)
  | v :: rest => do
    let a ← f v
    let more ← readItems f rest
    .ok (some a :: more)

/-- A name with an arity. -/
def pairOf (kind : InfoKind) (v : Value) : Except ContentError (String × Number) :=
  match v.get "name", v.get "arity" with
  | .text n, .number a => .ok (n, a)
  | _, _ => malformed ("Info " ++ kind.name ++ " holds a malformed entry")

/-- A key with a value. -/
def attributeOf (v : Value) : Except ContentError (String × Value) :=
  match v with
  | .list [.text k, v] => .ok (k, v)
  | _ => malformed "Info attributes holds a malformed entry"

/-- Names with arities. -/
def pairsOf (kind : InfoKind) (v : Value) :
    Except ContentError (List (Option (String × Number))) := do
  readItems (pairOf kind) (← listOf kind v)

/-- The answers that a record gives. -/
def ofValue (v : Value) : Except ContentError InfoAnswers := do
  let field (kind : InfoKind) : Value := v.get kind.name
  if v.isRecord then
    let attributes ← readItems attributeOf (← listOf .attributes (field .attributes))
    let compileOptions ← listOf .compileOptions (field .compileOptions)
    let exports ← pairsOf .exports (field .exports)
    let functions ← pairsOf .functions (field .functions)
    let macros ← pairsOf .macros (field .macros)
    let checksum ← textOf .checksum (field .checksum)
    let module ← textOf .module (field .module)
    let nativeAddresses ← listOf .nativeAddresses (field .nativeAddresses)
    .ok { attributes, compileOptions, exports, functions, macros, checksum, module
          nativeAddresses }
  else malformed "Info chunk is not a record"

/-- The answers of an artifact. -/
def ofArtifact (a : Artifact) : Except ContentError InfoAnswers :=
  match a.read? "Info" with
  | none => malformed "artifact has no Info chunk"
  | some payload =>
    match Term.decode payload with
    | none => .error .unreadable
    | some v => ofValue v

/-- A list with empty places as a value. -/
def itemsValue {α : Type} (f : α → Value) (items : List (Option α)) : Value :=
  .list (items.map (Value.ofOption f))

/-- A name with an arity as a value. -/
def pairValue (p : String × Number) : Value :=
  .record [("name", .text p.1), ("arity", .number p.2)]

/-- A key with a value as a value. -/
def attributeValue (e : String × Value) : Value := .list [.text e.1, e.2]

/-- The answer to one question. -/
def answer (i : InfoAnswers) : InfoKind → Value
  | .attributes => itemsValue attributeValue i.attributes
  | .compileOptions => .list i.compileOptions
  | .exports => itemsValue pairValue i.exports
  | .functions => itemsValue pairValue i.functions
  | .macros => itemsValue pairValue i.macros
  | .checksum => .text i.checksum
  | .module => .text i.module
  | .nativeAddresses => .list i.nativeAddresses

/-- All answers as a value. -/
def toValue (i : InfoAnswers) : Value :=
  .record (InfoKind.all.map fun k => (k.name, i.answer k))

end InfoAnswers
end ModuleBuild
