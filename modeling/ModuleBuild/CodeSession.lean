import ModuleBuild.Artifact.Basic
import ModuleBuild.OrderedMap

/-! # Loaded modules

The code session knows which modules are loaded, and where each came from.  The
compilation session keeps every artifact that was produced, in order.
-/
namespace ModuleBuild

/-- Where the loaded version of a module came from. -/
inductive LoadOrigin where
  | path (p : String)
  | memory
  deriving DecidableEq, Repr

namespace LoadOrigin

/-- An origin as a redefinition warning mentions it. -/
def text : LoadOrigin → String
  | path p => " (current version loaded from " ++ p ++ ")"
  | memory => " (current version defined in memory)"

/-- An origin as a value. -/
def toValue : LoadOrigin → Value
  | path p => .record [("kind", .text "path"), ("path", .text p)]
  | memory => .record [("kind", .text "memory")]

end LoadOrigin

/-- A loaded module. -/
structure LoadedModule where
  module : String
  artifact : Artifact
  origin : LoadOrigin

/-- The modules loaded at some time. -/
structure CodeSession where
  loaded : OrderedMap String LoadedModule

namespace CodeSession

/-- No modules. -/
def empty : CodeSession := ⟨.empty⟩

/-- The loaded version of a module. -/
def get? (s : CodeSession) (module : String) : Option LoadedModule := s.loaded.get? module

/-- Load a version of a module. -/
def register (s : CodeSession) (m : LoadedModule) : CodeSession :=
  ⟨s.loaded.insert m.module m⟩

/-- Unload a module. -/
def purge (s : CodeSession) (module : String) : CodeSession := ⟨s.loaded.erase module⟩

/-- The names of the loaded modules, in order. -/
def modules (s : CodeSession) : List String := Text.sort s.loaded.keys

end CodeSession

/-- The artifacts of one run, in the order they were produced. -/
structure CompilationSession where
  id : String
  binaries : List (String × Artifact)

namespace CompilationSession

/-- Record an artifact. -/
def produce (s : CompilationSession) (module : String) (a : Artifact) : CompilationSession :=
  { s with binaries := s.binaries ++ [(module, a)] }

end CompilationSession
end ModuleBuild
