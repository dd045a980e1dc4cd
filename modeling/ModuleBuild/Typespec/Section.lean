import ModuleBuild.Attribute.Store
import ModuleBuild.Typespec.Declaration

/-! # Typespec sections

The types, specs and callbacks that a module's artifact keeps.
-/
namespace ModuleBuild

/-- The typespecs of a module. -/
structure TypespecSections where
  types : List TypeDeclaration
  /-- The types that other modules can name. -/
  exportedTypes : List NameArity
  specs : List SpecDeclaration
  callbacks : List SpecDeclaration
  optionalCallbacks : List NameArity

/-- No typespecs at all. -/
def TypespecSections.none : TypespecSections := ⟨[], [], [], [], []⟩

namespace Typespec

/-- The pair that an entry of an optional-callback list names. -/
def optionalPair (location : Location) (entry : Value) : Except Failure NameArity :=
  match entry.get "name", (entry.get "arity").asInt? with
  | .text name, some arity => .ok ⟨name, arity⟩
  | _, _ => nameless "optional_callbacks" entry "expected name and arity" location

/-- The pairs that a value of the optional-callback attribute names: it is an
entry or a list of entries. -/
def optionalPairs (location : Location) (v : Value) : Except Failure (List NameArity) :=
  ((v.asList?).getD [v]).mapM (optionalPair location)

/-- The declarations that the forms under a key make. -/
def declarations (t : AttributeTable) (location : Location) (kind : SpecKind) :
    Except Failure (List SpecDeclaration) :=
  (t.readAll kind.key).mapM fun form => translateSpec kind form location

/-- The types that a module's attributes declare. -/
def typesOf (t : AttributeTable) (location : Location) :
    Except Failure (List TypeDeclaration) := do
  let types ← TypeKind.all.mapM fun kind =>
    (t.readAll kind.key).mapM fun form => translateType kind form location
  .ok (NameArity.sortBy TypeDeclaration.pair types.flatten)

/-- The pair that a callback counts as when it is listed as optional: a macro
callback counts as the function that it is called as. -/
def optionalTarget (macroCallbacks : List NameArity) (p : NameArity) : NameArity :=
  if macroCallbacks.contains p.dispatch then p.dispatch else p

/-- The typespecs that a module's attributes declare. -/
def sections (t : AttributeTable) (definitions : DefinitionSummary) (location : Location) :
    Except Failure TypespecSections := do
  let types ← typesOf t location
  let specs ← declarations t location .spec
  let callbacks ← declarations t location (.callback .function)
  let macroCallbacks ← declarations t location (.callback .macroFunction)
  let optional ← (t.readAll "optional_callbacks").mapM (optionalPairs location)
  let targets := macroCallbacks.map SpecDeclaration.pair
  .ok
    { types
      exportedTypes := NameArity.sorted
        ((types.filter fun d => d.kind ≠ .privateType).map TypeDeclaration.pair)
      specs := mergeSpecs (specs.filterMap fun d => retarget d definitions)
      callbacks := mergeSpecs (callbacks ++ macroCallbacks)
      optionalCallbacks := NameArity.sorted (optional.flatten.map (optionalTarget targets)) }

end Typespec
end ModuleBuild
