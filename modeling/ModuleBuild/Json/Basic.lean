import ModuleBuild.Value.Basic

/-! # JSON documents

A document is what JSON text can say.  Objects keep their members in the field
order of records.
-/
namespace ModuleBuild

/-- A JSON document. -/
inductive Json where
  | null
  | bool (b : Bool)
  | number (x : Number)
  | text (s : String)
  | list (items : List Json)
  | object (members : List (String × Json))

namespace Json

instance : Inhabited Json := ⟨null⟩

/-- The object that results from writing members in turn. -/
def ofMembers (entries : List (String × Json)) : Json := object (Value.fieldsOf entries)

/-- The member with a name, if the document is an object that has one. -/
def member? (name : String) : Json → Option Json
  | object ms => Value.findField name ms
  | _ => none

end Json
end ModuleBuild
