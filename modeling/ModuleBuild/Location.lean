/-! # Source locations

The file and line at which a module, a definition or an attribute stands.
-/
namespace ModuleBuild

/-- A line of a file. -/
structure Location where
  file : String
  line : Int
  deriving DecidableEq, Repr, Inhabited

/-- A location as `file:line`. -/
def Location.text (l : Location) : String := l.file ++ ":" ++ toString l.line

end ModuleBuild
