import ModuleBuild.Failure.Basic

/-! # Hooks

A module names the hooks to be called when it defines something, before it is
compiled and after.  A hook is a function of a module, or a module, which then
answers under the name that the occasion has.
-/
namespace ModuleBuild

/-- The occasions on which hooks are called. -/
inductive HookPhase where
  | onDefinition
  | beforeCompile
  | afterCompile
  deriving DecidableEq, Repr

namespace HookPhase

/-- All occasions. -/
def all : List HookPhase := [onDefinition, beforeCompile, afterCompile]

/-- The attribute that registers hooks for an occasion. -/
def key : HookPhase → String
  | onDefinition => "on_definition"
  | beforeCompile => "before_compile"
  | afterCompile => "after_compile"

/-- The occasion that an attribute registers hooks for. -/
def ofKey? (k : String) : Option HookPhase := all.find? fun p => p.key = k

/-- The function that is called when only a module is named. -/
def defaultFunction (p : HookPhase) : String := "__" ++ p.key ++ "__"

/-- How many arguments hooks are called with. -/
def arity : HookPhase → Nat
  | beforeCompile => 1
  | _ => 2

end HookPhase

/-- A function of a module. -/
structure HookTarget where
  module : String
  function : String
  deriving DecidableEq, Repr

namespace HookTarget

/-- The target that a record names, if it names one. -/
def ofRecord? (v : Value) : Option HookTarget :=
  match v.get "module", v.get "function" with
  | .text m, .text f => some ⟨m, f⟩
  | _, _ => none

/-- The target that a registered value names, if it names one. -/
def ofValue? (p : HookPhase) : Value → Option HookTarget
  | .text m => if m = "" then none else some ⟨m, p.defaultFunction⟩
  | v => ofRecord? v

/-- The call of a hook, as a frame at a place of the module. -/
def callSite (p : HookPhase) (hook : Value) (location : Location) : Frame :=
  let target := (ofValue? p hook).getD ⟨hook.display, p.defaultFunction⟩
  { module := target.module, function := target.function, arity := p.arity
    location := some location }

/-- What is wrong with a registered value that names no target. -/
def refusal (p : HookPhase) (hook : Value) : Failure :=
  .typeError ("expected a module or \x7bmodule, function\x7d for @" ++ p.key ++ ", got: "
    ++ hook.display)

end HookTarget
end ModuleBuild
