import ModuleBuild.Attribute.Store

/-! # Attribute sections

The part of a module's attributes that its artifact keeps: one section per
persisted value, the keys in the order of their first writing and the values of a
key in the order they were written.  The external resources, which must be texts,
are kept sorted and each once.
-/
namespace ModuleBuild

/-- A persisted value. -/
structure AttributeSection where
  key : String
  value : Value

namespace AttributeSection

/-- A section as a value. -/
def toValue (s : AttributeSection) : Value :=
  .record [("key", .text s.key), ("value", s.value)]

end AttributeSection

namespace AttributeTable

/-- The key that names the files a module depends on. -/
def resourceKey : String := "external_resource"

/-- The first of some values that is no text, or all the texts. -/
def allTexts : List Value → Except Value (List String)
  | [] => .ok []
  | .text s :: rest => (allTexts rest).map (s :: ·)
  | v :: _ => .error v

/-- The files a module depends on, in order and each once. -/
def resources (t : AttributeTable) (location : Location) : Except Problem (List String) :=
  match allTexts (t.readAll resourceKey) with
  | .ok names => .ok (Text.sort names.eraseDups)
  | .error v => .error ⟨.resourceInvalid v, some location⟩

/-- The values that a key shows, one by one: the items of a list if writes to the key accumulate,
else the value as it is, which may be a list as well. -/
def shownValues (t : AttributeTable) (key : String) (cell : AttributeCell) : List Value :=
  match t.policies.accumulates key, cell.shown? with
  | true, some (.list vs) => vs
  | _, some v => [v]
  | _, none => []

/-- The sections of one key. -/
def sectionsOf (t : AttributeTable) (location : Location) (key : String)
    (cell : AttributeCell) : Except Problem (List AttributeSection) :=
  if t.policies.persists key then
    if key = resourceKey then do
      let names ← t.resources location
      .ok (names.map fun n => ⟨key, .text n⟩)
    else .ok ((t.shownValues key cell).map fun v => ⟨key, v⟩)
  else .ok []

/-- The sections of a list of cells. -/
def sectionsFrom (t : AttributeTable) (location : Location) :
    List (String × AttributeCell) → Except Problem (List AttributeSection)
  | [] => .ok []
  | e :: rest => do
    let here ← t.sectionsOf location e.1 e.2
    let more ← sectionsFrom t location rest
    .ok (here ++ more)

/-- The sections of a module's attributes. -/
def sections (t : AttributeTable) (location : Location) :
    Except Problem (List AttributeSection) :=
  t.sectionsFrom location t.cells.entries

end AttributeTable
end ModuleBuild
