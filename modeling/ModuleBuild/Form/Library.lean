import ModuleBuild.Compile.World
import ModuleBuild.Form.Basic

/-! # Functions and hooks of forms

The functions that forms can call, and the hooks that modules can register.  Which
of the hooks of one name answers may depend on all that has happened so far.
-/
namespace ModuleBuild

/-- What a hook looks up to note it down. -/
inductive HookQuery where
  /-- The context of the call, and that of the module. -/
  | contexts
  /-- What the hook was called with. -/
  | arguments
  /-- The chunks of the artifact that the hook was called with. -/
  | chunks
  /-- The module, and its phase. -/
  | scope
  /-- Whether a module is open. -/
  | openState (module : String)
  /-- What an attribute of a module reads as. -/
  | attributeState (module key : String)

/-- A step of a hook. -/
inductive HookStep where
  /-- Evaluate a form, and note its value down. -/
  | evaluate (form : Form)
  /-- Evaluate a form, note down what comes of it, and go on. -/
  | attempt (form : Form)
  | stop (failure : Failure)
  | note (query : HookQuery)

/-- The forms that a step evaluates. -/
def HookStep.forms : HookStep → List Form
  | evaluate f => [f]
  | attempt f => [f]
  | _ => []

/-- A hook: its steps, and the form that it expands to, if it does. -/
structure Hook where
  steps : List HookStep
  expansion : Option Form

/-- The forms of a hook. -/
def Hook.forms (h : Hook) : List Form :=
  h.steps.flatMap HookStep.forms ++ h.expansion.toList

/-- A hook under the name that calls it. -/
structure HookRule where
  name : String
  /-- Whether the hook is the one that answers, after what has happened. -/
  applies : List Event → Bool
  hook : Hook

/-- The name under which functions and hooks are looked up. -/
def HookTarget.name (t : HookTarget) : String := t.module ++ "." ++ t.function

/-- The functions and hooks that there are. -/
structure FormLibrary where
  /-- The functions, each with the value or the failure that it answers with. -/
  functions : List (String × Except Failure Value)
  hooks : List HookRule

namespace FormLibrary

/-- The answer of a function, if there is one of that name. -/
def function? (lib : FormLibrary) (t : HookTarget) : Option (Except Failure Value) :=
  lib.functions.lookup t.name

/-- The hook of a name that answers, if there is one. -/
def hook? (lib : FormLibrary) (t : HookTarget) (log : List Event) : Option Hook :=
  (lib.hooks.find? fun r => r.name = t.name && r.applies log).map HookRule.hook

/-- The forms of all hooks. -/
def forms (lib : FormLibrary) : List Form := lib.hooks.flatMap fun r => r.hook.forms

end FormLibrary
end ModuleBuild
