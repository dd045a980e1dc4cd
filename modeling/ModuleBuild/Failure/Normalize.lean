import ModuleBuild.Failure.Basic

/-! # Functions that are not available yet

Code that runs while a module is compiled may call a function of that very
module.  The call fails as one of an unknown function; `Failure.normalize`
rewrites such a failure so that it speaks of the function of the module that is
still being compiled.
-/
namespace ModuleBuild

/-- A call of a function that does not exist. -/
structure UndefinedCall where
  module : String
  pair : NameArity
  frames : List Frame

mutual

/-- The first call of an unknown function on a failure's chain of causes. -/
def Failure.undefinedCall? : Failure → Option UndefinedCall
  | .undefinedFunction m p fs _ => some ⟨m, p, fs⟩
  | .condition _ _ _ _ k => k.undefinedCall?
  | .exception _ _ _ k => k.undefinedCall?
  | .thrown _ => none

/-- The first call of an unknown function from a cause on.  A chain that leads
back into itself holds nothing new. -/
def Cause.undefinedCall? : Cause → Option UndefinedCall
  | .none => Option.none
  | .failure f => f.undefinedCall?
  | .enclosing _ => Option.none

end

namespace Failure

/-- The failure that says that a function of the module being compiled is not
available yet, if that is what a failure comes down to: the first frame of the
unknown call must lie in the module. -/
def notAvailable? (f : Failure) (module : String) (location : Option Location) :
    Option Failure := do
  let call ← f.undefinedCall?
  let origin ← call.frames.head?
  if origin.module = module then
    some (condition (.functionNotAvailable module call.pair) (origin.location <|> location)
      (f.frames?.getD call.frames) (some origin) (.failure f))
  else Option.none

/-- A failure as it leaves the compilation of a module. -/
def normalize (f : Failure) (module : String) (location : Option Location) : Failure :=
  (f.notAvailable? module location).getD f

end Failure
end ModuleBuild
