import ModuleBuild.Artifact.Introspection
import ModuleBuild.Attribute.Section
import ModuleBuild.Docs
import ModuleBuild.Typespec.Section

/-! # Assembled modules

What a module's attributes and definitions come to once its body and the hooks
before compilation are done: everything its artifact will hold.
-/
namespace ModuleBuild

/-- A module whose parts are final. -/
structure Assembly where
  module : String
  location : Location
  exports : List NameArity
  functions : List NameArity
  macros : List NameArity
  definitions : List Definition
  typespecs : TypespecSections
  attributes : List AttributeSection
  /-- The values of the `compile` attribute, as they were written. -/
  compileValues : List Value
  warnings : List Diagnostic

namespace Assembly

/-- The exported pairs: what the definitions export, and the injected function. -/
def exportsOf (s : DefinitionSummary) : List NameArity :=
  NameArity.sorted (s.exports ++ [Introspection.pair])

/-- The typespecs of a module, with the spec of the injected function; an internal
module has none. -/
def typespecsOf (isInternal : Bool) (t : AttributeTable) (s : DefinitionSummary)
    (location : Location) : Except Failure TypespecSections :=
  if isInternal then .ok .none
  else do
    let sections ← Typespec.sections t s location
    .ok { sections with
      specs := NameArity.sortBy SpecDeclaration.pair
        (sections.specs ++ [Introspection.spec location.line]) }

/-- Assemble a module.  The injected function must not be defined by the module. -/
def ofTables (module : String) (location : Location) (attributes : AttributeTable)
    (definitions : DefinitionTable) (withDocs isInternal : Bool) : Except Failure Assembly := do
  match definitions.get? Introspection.pair with
  | some d => .error (.ofProblem ⟨.internalOverridden Introspection.pair, some d.location⟩)
  | none =>
    let s := definitions.summary
    let typespecs ← typespecsOf isInternal attributes s location
    let sections ← (attributes.sections location).mapError Failure.ofProblem
    .ok
      { module, location
        exports := exportsOf s
        functions := s.functions
        macros := s.macros
        definitions := s.all
        typespecs
        attributes := sections
        compileValues := attributes.readAll "compile"
        warnings := if withDocs then attributes.unusedDocs location else [] }

end Assembly
end ModuleBuild
