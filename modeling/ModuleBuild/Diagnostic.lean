import ModuleBuild.Catalogue
import ModuleBuild.Location

/-! # Diagnostics

Conditions that are reported without ending the compilation.
-/
namespace ModuleBuild

/-- A condition found at a location. -/
structure Diagnostic where
  code : Code
  location : Location
  /-- The particulars, all of them texts. -/
  context : List (String × String)

namespace Diagnostic

/-- What a diagnostic says. -/
def message (d : Diagnostic) : String := d.code.wording d.context

/-- A diagnostic on one line: where, how severe, what, and its identifier. -/
def text (d : Diagnostic) : String :=
  d.location.text ++ ": " ++ d.code.severity.name ++ ": " ++ d.message
    ++ " [" ++ d.code.id ++ "]"

end Diagnostic
end ModuleBuild
