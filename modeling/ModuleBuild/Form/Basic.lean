import ModuleBuild.Attribute.Store
import ModuleBuild.Compile.Hook
import ModuleBuild.Definition.Table

/-! # Forms

The language in which the bodies of modules and the expansions of hooks are
written.  A form acts on the module it stands in, or holds a module nested in it.
-/
namespace ModuleBuild

/-- What a form does to the module it stands in. -/
inductive FormAction where
  /-- Add a definition, with a clause if one is given. -/
  | define (kind : DefinitionKind) (pair : NameArity) (clause : Option Value)
  | write (key : String) (value : Value)
  | read (key : String)
  | declare (key : String) (policy : AttributePolicy)
  | delete (key : String)
  | recordLocal (pair : NameArity)
  | call (target : HookTarget) (args : List Value)
  | raise (message : String)
  | constant (value : Value)
  /-- Do nothing; the value is undefined. -/
  | nothing

/-- The pairs that an action may define. -/
def FormAction.definedPairs : FormAction → List NameArity
  | define _ pair _ => [pair]
  | _ => []

/-- A form.  One that names a line moves what follows to that line. -/
inductive Form where
  /-- What is no form at all; it cannot be evaluated. -/
  | malformed
  | act (line : Option Int) (action : FormAction)
  | module (line : Option Int) (name : String) (body : List Form)

namespace Form

/-- The line that a form names. -/
def line? : Form → Option Int
  | malformed => none
  | act line _ => line
  | module line _ _ => line

mutual
/-- The names of the modules nested in a form, at any depth. -/
def moduleNames : Form → List String
  | malformed => []
  | act _ _ => []
  | module _ name body => name :: bodyModuleNames body

/-- The names of the modules nested in forms, at any depth. -/
def bodyModuleNames : List Form → List String
  | [] => []
  | f :: rest => f.moduleNames ++ bodyModuleNames rest
end

mutual
/-- The pairs that a form may define, at any depth. -/
def definedPairs : Form → List NameArity
  | malformed => []
  | act _ a => a.definedPairs
  | module _ _ body => bodyDefinedPairs body

/-- The pairs that forms may define, at any depth. -/
def bodyDefinedPairs : List Form → List NameArity
  | [] => []
  | f :: rest => f.definedPairs ++ bodyDefinedPairs rest
end

end Form
end ModuleBuild
