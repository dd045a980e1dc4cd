import ModuleBuild.Template

/-! # The catalogue of conditions

Every condition that can be reported has a `Code`, and the catalogue says for
each what it is called, how severe it is and which message announces it.
-/
namespace ModuleBuild

/-- What a condition is about. -/
inductive Category where
  | registry
  | attributes
  | definitions
  | hooks
  | build
  | config
  deriving DecidableEq, Repr

namespace Category

/-- All categories. -/
def all : List Category := [registry, attributes, definitions, hooks, build, config]

/-- The name of a category. -/
def name : Category → String
  | registry => "registry"
  | attributes => "attribute"
  | definitions => "definition"
  | hooks => "hook"
  | build => "build"
  | config => "config"

/-- The letter that the identifiers of a category carry. -/
def letter : Category → String
  | registry => "R"
  | attributes => "A"
  | definitions => "D"
  | hooks => "H"
  | build => "B"
  | config => "C"

end Category

/-- Whether a condition ends the compilation. -/
inductive Severity where
  | error
  | warning
  deriving DecidableEq, Repr

/-- The name of a severity. -/
def Severity.name : Severity → String
  | error => "error"
  | warning => "warning"

/-- The conditions that can be reported. -/
inductive Code where
  | moduleReserved
  | moduleBeingDefined
  | moduleRedefined
  | moduleNameInvalid
  | moduleNotOpen
  | resourceInvalid
  | policyChanged
  | keyReserved
  | internalOverridden
  | kindClash
  | definitionsClosed
  | docUnused
  | typedocUnused
  | typespecInvalid
  | functionNotAvailable
  | hookFailed
  | transitionInvalid
  | observerFailed
  | buildFailed
  | chunkInvalid
  | configurationInvalid
  deriving DecidableEq, Repr

/-- What the catalogue says of a condition. -/
structure CatalogueEntry where
  id : String
  category : Category
  severity : Option Severity
  description : String
  template : Template
  cause : Option String
  resolution : Option String

namespace Code

/-- All codes, in catalogue order. -/
def all : List Code :=
  [moduleReserved, moduleBeingDefined, moduleRedefined, moduleNameInvalid, moduleNotOpen,
   resourceInvalid, policyChanged, keyReserved,
   internalOverridden, kindClash, definitionsClosed, docUnused, typedocUnused, typespecInvalid,
   functionNotAvailable, hookFailed, transitionInvalid, observerFailed,
   buildFailed, chunkInvalid, configurationInvalid]

/-- The catalogue. -/
def entry : Code → CatalogueEntry
  | moduleReserved =>
    { id := "MODF-R001", category := .registry, severity := none
      description := "Reserved module name"
      template :=
        [.text "module ", .hole "module", .text " is reserved and cannot be defined"]
      cause := "The module name belongs to the fixed set of names the runtime keeps for itself."
      resolution := "Pick a different module name." }
  | moduleBeingDefined =>
    { id := "MODF-R002", category := .registry, severity := none
      description := "Module already being defined"
      template :=
        [.text "cannot define module ", .hole "module",
         .text " because it is currently being defined in ", .hole "file", .text ":",
         .hole "line"]
      cause := "A module body (or one of its hooks) asked to compile a module whose compilation is still in progress."
      resolution := "Move the nested definition out of the module body, or give it a different name." }
  | moduleRedefined =>
    { id := "MODF-R003", category := .registry, severity := some .warning
      description := "Module redefinition"
      template := [.text "redefining module ", .hole "module", .hole "origin"]
      cause := "A module with the same name is already loaded in the running code session."
      resolution := "Purge the loaded module first, or set ignoreModuleConflict when redefinition is expected." }
  | moduleNameInvalid =>
    { id := "MODF-R004", category := .registry, severity := none
      description := "Invalid module name"
      template := [.text "invalid module name: ", .hole "module"]
      cause := none, resolution := none }
  | moduleNotOpen =>
    { id := "MODF-R005", category := .registry, severity := none
      description := "Module no longer open"
      template :=
        [.text "module ", .hole "module",
         .text " is not being compiled; its attribute and definition tables are gone"]
      cause := none, resolution := none }
  | resourceInvalid =>
    { id := "MODF-A001", category := .attributes, severity := none
      description := "Invalid external resource"
      template := [.text "expected a string value for @external_resource, got: ", .hole "value"]
      cause := "A value written to @external_resource is not a file path."
      resolution := "Write only string paths to @external_resource." }
  | policyChanged =>
    { id := "MODF-A002", category := .attributes, severity := none
      description := "Attribute policy changed after write"
      template :=
        [.text "attribute @", .hole "key",
         .text " already holds a value and cannot be re-registered with accumulate: ",
         .hole "accumulate"]
      cause := none, resolution := none }
  | keyReserved =>
    { id := "MODF-A003", category := .attributes, severity := none
      description := "Reserved attribute key"
      template := [.text "attribute key ", .hole "key", .text " is reserved for the compiler"]
      cause := none, resolution := none }
  | internalOverridden =>
    { id := "MODF-D001", category := .definitions, severity := none
      description := "Internal function overridden"
      template :=
        [.text "function ", .hole "name", .text "/", .hole "arity",
         .text " is internal and should not be overridden"]
      cause := "The module defines a function with the name and arity of the injected introspection function."
      resolution := "Rename the function or change its arity." }
  | kindClash =>
    { id := "MODF-D002", category := .definitions, severity := none
      description := "Definition kind clash"
      template :=
        [.hole "kind", .text " ", .hole "name", .text "/", .hole "arity",
         .text " already defined as ", .hole "existing", .text " in ", .hole "file",
         .text ":", .hole "line"]
      cause := none, resolution := none }
  | definitionsClosed =>
    { id := "MODF-D003", category := .definitions, severity := none
      description := "Definitions closed"
      template :=
        [.text "cannot define ", .hole "name", .text "/", .hole "arity", .text " in module ",
         .hole "module", .text " during the ", .hole "phase", .text " phase"]
      cause := "After-compile hooks and later phases see the final definitions only."
      resolution := "Add definitions from the module body or from a before-compile hook." }
  | docUnused =>
    { id := "MODF-D004", category := .definitions, severity := some .warning
      description := "Unused @doc"
      template := [.text "@doc provided but no definition follows it"]
      cause := none, resolution := none }
  | typedocUnused =>
    { id := "MODF-D005", category := .definitions, severity := some .warning
      description := "Unused @typedoc"
      template := [.text "@typedoc provided but no type follows it"]
      cause := none, resolution := none }
  | typespecInvalid =>
    { id := "MODF-D006", category := .definitions, severity := none
      description := "Invalid typespec"
      template :=
        [.text "invalid @", .hole "kind", .text " ", .hole "name", .text ": ", .hole "reason"]
      cause := none, resolution := none }
  | functionNotAvailable =>
    { id := "MODF-H001", category := .hooks, severity := none
      description := "Function not available"
      template :=
        [.text "function ", .hole "module", .text ".", .hole "function", .text "/",
         .hole "arity", .text " is undefined (function not available)"]
      cause := "Code running at compile time called a function of the module that is still being compiled."
      resolution := "Call the function after the module is compiled, or move it to a module compiled earlier." }
  | hookFailed =>
    { id := "MODF-H002", category := .hooks, severity := none
      description := "Hook failed"
      template :=
        [.hole "phase", .text " hook ", .hole "module", .text ".", .hole "function", .text "/",
         .hole "arity", .text " failed: ", .hole "reason"]
      cause := none, resolution := none }
  | transitionInvalid =>
    { id := "MODF-H003", category := .hooks, severity := none
      description := "Invalid phase transition"
      template :=
        [.text "cannot move module ", .hole "module", .text " from ", .hole "from",
         .text " to ", .hole "to"]
      cause := none, resolution := none }
  | observerFailed =>
    { id := "MODF-H004", category := .hooks, severity := some .warning
      description := "Observer failed"
      template :=
        [.text "observability callback ", .hole "callback", .text " failed for module ",
         .hole "module", .text ": ", .hole "reason"]
      cause := "A host observability callback threw; compilation continued without it."
      resolution := none }
  | buildFailed =>
    { id := "MODF-B001", category := .build, severity := none
      description := "Artifact build failed"
      template :=
        [.text "could not build artifact for ", .hole "module", .text ": ", .hole "reason"]
      cause := none, resolution := none }
  | chunkInvalid =>
    { id := "MODF-B002", category := .build, severity := none
      description := "Invalid chunk"
      template := [.text "invalid artifact chunk data: ", .hole "reason"]
      cause := none, resolution := none }
  | configurationInvalid =>
    { id := "MODF-C001", category := .config, severity := none
      description := "Invalid configuration"
      template := [.text "invalid configuration in ", .hole "file", .text ": ", .hole "reason"]
      cause := none, resolution := none }

/-- The identifier under which a condition is reported. -/
def id (c : Code) : String := c.entry.id

/-- The severity of a condition; an error unless the catalogue says otherwise. -/
def severity (c : Code) : Severity := c.entry.severity.getD .error

/-- The message of a condition in a context. -/
def message (c : Code) (context : List (String × Value)) : Except TextFault String :=
  c.entry.template.fill context

/-- The message of a condition whose particulars are texts. -/
def wording (c : Code) (texts : List (String × String)) : String := c.entry.template.words texts

/-- The condition with an identifier. -/
def ofId? (id : String) : Option Code := all.find? fun c => c.id = id

end Code
end ModuleBuild
