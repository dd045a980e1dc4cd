import ModuleBuild.Definition.NameArity
import ModuleBuild.Typespec.Declaration

/-! # Introspection

Every module answers questions about itself through an injected function.  Its
name is reserved, it is exported, and it has a spec.
-/
namespace ModuleBuild

/-- The questions that a module answers. -/
inductive InfoKind where
  | attributes
  | compileOptions
  | exports
  | functions
  | macros
  | checksum
  | module
  | nativeAddresses
  deriving DecidableEq, Repr

namespace InfoKind

/-- All questions. -/
def all : List InfoKind :=
  [attributes, compileOptions, exports, functions, macros, checksum, module, nativeAddresses]

/-- The name of a question. -/
def name : InfoKind → String
  | attributes => "attributes"
  | compileOptions => "compile-opts"
  | exports => "exports"
  | functions => "functions"
  | macros => "macros"
  | checksum => "checksum"
  | module => "module"
  | nativeAddresses => "native-addresses"

/-- The question with a name. -/
def ofName? (n : String) : Option InfoKind := all.find? fun k => k.name = n

end InfoKind

namespace Introspection

/-- The injected function. -/
def pair : NameArity := ⟨"__info__", 1⟩

/-- The spec of the injected function: it takes one of the questions. -/
def spec (line : Int) : SpecDeclaration where
  isCallback := false
  pair := pair
  line := line
  clauses :=
    [{ params :=
        [.record [("kind", .text "union"),
          ("members", .list (InfoKind.all.map fun k =>
            .record [("kind", .text "literal"), ("value", .text k.name)]))]]
       result := TypeExpr.anyTerm }]

end Introspection
end ModuleBuild
