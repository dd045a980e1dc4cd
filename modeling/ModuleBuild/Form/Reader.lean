import ModuleBuild.Form.Library
import ModuleBuild.Value.Measure

/-! # Forms written as values

A form is written as a record whose `op` names what it does; every other value is
malformed.  A step of a hook is written as a record of what it evaluates, throws or
logs.
-/
namespace ModuleBuild

/-- The pair in the fields `name` and `arity`. -/
def NameArity.ofValue (v : Value) : NameArity := ⟨v.textAt "name", v.intAt "arity"⟩

/-- The policy in the fields `accumulate` and `persist`. -/
def AttributePolicy.ofValue (v : Value) : AttributePolicy :=
  ⟨(v.get "accumulate").truth, (v.get "persist").truth⟩

/-- The action of a form whose `op` is given. -/
def FormAction.ofValue (v : Value) : String → FormAction
  | "def" =>
    .define ((DefinitionKind.ofWord? (v.textAt "kind")).getD .function) (.ofValue v)
      (if (v.get "clause").isDefined then some (v.get "clause") else none)
  | "attr" => .write (v.textAt "key") (v.get "value")
  | "read" => .read (v.textAt "key")
  | "register" => .declare (v.textAt "key") (.ofValue v)
  | "delete" => .delete (v.textAt "key")
  | "local" => .recordLocal (.ofValue v)
  | "call" => .call ⟨v.textAt "module", v.textAt "function"⟩ (v.listAt "args")
  | "raise" => .raise (v.textAt "message")
  | "value" => .constant (v.get "value")
  | _ => .nothing

namespace Form

mutual

/-- The form that a value is written as. -/
def ofValue : Value → Form
  | .fields fs =>
    let v := Value.fields fs
    match v.get "op" with
    | .text op =>
      let line := (v.get "line").asInt?
      if op = "defmodule" then .module line (v.textAt "name") (bodyOf fs)
      else .act line (.ofValue v op)
    | _ => .malformed
  | _ => .malformed
termination_by v => (sizeOf v, 1)

/-- The forms in the field `body`. -/
def bodyOf (fs : List (String × Value)) : List Form :=
  match _h : (Value.fields fs).get "body" with
  | .list items => ofValues items
  | _ => []
termination_by (sizeOf (Value.fields fs), 0)
decreasing_by
  have := Value.sizeOf_list_of_get _h
  exact Prod.Lex.left _ _ this

/-- The forms that values are written as. -/
def ofValues : List Value → List Form
  | [] => []
  | v :: rest => ofValue v :: ofValues rest
termination_by vs => (sizeOf vs, 0)

end

end Form

/-- The query that a record logs, if it logs one. -/
def HookQuery.ofValue? (v : Value) : Option HookQuery :=
  match v.textAt "log" with
  | "env" => some .contexts
  | "args" => some .arguments
  | "chunks" => some .chunks
  | "scope" => some .scope
  | "isOpen" => some (.openState (v.textAt "name"))
  | "attribute" => some (.attributeState (v.textAt "name") (v.textAt "key"))
  | _ => none

/-- The step that a value is written as; `failure` reads what is thrown. -/
def HookStep.ofValue? (failure : Value → Failure) (v : Value) : Option HookStep :=
  if (v.get "form").isDefined then some (.evaluate (.ofValue (v.get "form")))
  else if (v.get "try").isDefined then some (.attempt (.ofValue (v.get "try")))
  else if (v.get "throw").isDefined then some (.stop (failure (v.get "throw")))
  else (HookQuery.ofValue? v).map .note

/-- The hook that a value is written as. -/
def Hook.ofValue (failure : Value → Failure) (v : Value) : Hook where
  steps := (v.listAt "steps").filterMap (HookStep.ofValue? failure)
  expansion :=
    if (v.get "expand").isDefined then some (.ofValue (v.get "expand")) else none

/-- The library with the functions and hooks that records are written as: a function
is a value or what is thrown, and a hook answers whatever has happened. -/
def FormLibrary.ofValues (failure : Value → Failure)
    (functions hooks : List (String × Value)) : FormLibrary where
  functions := functions.map fun f =>
    (f.1, if (f.2.get "throw").isDefined then .error (failure (f.2.get "throw"))
      else .ok (f.2.get "value"))
  hooks := hooks.map fun h => ⟨h.1, fun _ => true, .ofValue failure h.2⟩

end ModuleBuild
