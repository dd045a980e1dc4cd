import ModuleBuild.Compile.Pipeline
import ModuleBuild.Form.Library

/-! # Evaluating forms

Forms are evaluated in order, in the scope of the module they stand in; the value
of the last is the value of them all.  A hook is run by its steps, and then by the
form that it expands to.

Evaluation is structural but for hooks, which can call each other.  A hook called
within a hook stands for a pair that is new in some open module, or for the hooks
of a module that has just been opened, so calls go no deeper than the number of
modules times one more than the number of pairs: `FormLibrary.depth`.
-/
namespace ModuleBuild

/-- A definition and whether it is new, as the value of the form that makes it. -/
def Definition.outcome (d : Definition) (isNew : Bool) : Value :=
  .fields [("definition", d.toValue), ("isNew", .bool isNew)]

/-- Call a function. -/
def FormLibrary.call (lib : FormLibrary) (t : HookTarget) (args : List Value) : Run Value :=
  match lib.function? t with
  | none => Run.fail (.undefinedCall t.module t.function args.length)
  | some answer => do
    Run.record (.called t args)
    Run.ofFailure answer

/-- Carry out an action; `line` is the line of the form. -/
def FormAction.perform (lib : FormLibrary) (g : Engine) (scope : ModuleScope)
    (line : Option Int) : FormAction → Run Value
  | define kind pair clause => do
    let (d, isNew) ← g.define scope { kind, pair, clauses := clause.toList, line }
    pure (d.outcome isNew)
  | write key v => do
    g.putAttribute scope key v
    pure v
  | read key => Engine.readAttribute scope key
  | declare key policy => do
    Run.changeAttributes scope (·.declare key policy)
    pure .null
  | delete key => do
    Run.changeAttributes scope (·.delete key)
    pure .null
  | recordLocal pair => do
    Engine.recordLocal scope pair
    pure .null
  | call target args => lib.call target args
  | raise message => Run.fail (.exception .plain message none .none)
  | constant v => pure v
  | nothing => pure .undefined

/-- The context after a form. -/
def Form.leave (f : Form) (env : CompileEnv) : CompileEnv :=
  { env with line := f.line?.getD env.line }

namespace FormLibrary

mutual
/-- The value of a form. -/
def eval (lib : FormLibrary) (g : Engine) (scope : ModuleScope) : Form → Run FormResult
  | .malformed => Run.fail (.typeError "not a test form")
  | .act line a => .value <$> a.perform lib g scope line
  | .module line name body => do
    let env := { scope.env with line := line.getD scope.env.line }
    let compiled ← g.compile name env fun env scope =>
      lib.evalBody g (.value .null) env scope body
    pure (.compiled compiled.module)

/-- The value of the last form, and the context that the forms leave; without forms
the value and the context are those given. -/
def evalBody (lib : FormLibrary) (g : Engine) (value : FormResult) (env : CompileEnv)
    (scope : ModuleScope) : List Form → Run (FormResult × CompileEnv)
  | [] => pure (value, env)
  | f :: rest => do
    let value ← lib.eval g scope f
    lib.evalBody g value (f.leave env) scope rest
end

/-- What a hook notes down for a query. -/
def answer (phase : HookPhase) (subject : HookSubject) (env : CompileEnv)
    (scope : ModuleScope) : HookQuery → Run Note
  | .contexts => pure (.contexts env scope.env)
  | .arguments => pure (.arguments phase.arity subject)
  | .chunks => pure (.chunks subject)
  | .scope => do
    let e ← Run.entry scope
    pure (.scope scope.module e.phase)
  | .openState module => do
    pure (.openState module ((← get).registry.isOpen module))
  | .attributeState module key => do
    let read := (← get).registry.readAttribute module key
    pure (.attributeState (read.mapError fun c => .ofProblem { condition := c }))

/-- Run a step of a hook. -/
def runStep (lib : FormLibrary) (g : Engine) (phase : HookPhase) (subject : HookSubject)
    (env : CompileEnv) (scope : ModuleScope) : HookStep → Run Unit
  | .evaluate f => do
    let value ← lib.eval g scope f
    Run.record (.noted (.evaluated value))
  | .attempt f => do
    let outcome ← Run.attempt (lib.eval g scope f)
    Run.record (.noted (.tried outcome))
  | .stop f => Run.fail f
  | .note q => do
    let note ← answer phase subject env scope q
    Run.record (.noted note)

/-- Run the steps of a hook in turn. -/
def runSteps (lib : FormLibrary) (g : Engine) (phase : HookPhase) (subject : HookSubject)
    (env : CompileEnv) (scope : ModuleScope) : List HookStep → Run Unit
  | [] => pure ()
  | s :: rest => do
    lib.runStep g phase subject env scope s
    lib.runSteps g phase subject env scope rest

/-- Run the hook that answers a call.  The context it leaves is that of its
expansion, or the one it was called in. -/
def fire (lib : FormLibrary) (g : Engine) (phase : HookPhase) (target : HookTarget)
    (subject : HookSubject) (env : CompileEnv) (scope : ModuleScope) : Run CompileEnv := do
  match lib.hook? target (← get).log with
  | none => Run.fail (.undefinedCall target.module target.function phase.arity)
  | some hook =>
    Run.record (.dispatched target phase.arity env.line)
    lib.runSteps g phase subject env scope hook.steps
    match hook.expansion with
    | none => pure env
    | some f => do
      let (_, env) ← lib.evalBody g (.value .null) env scope [f]
      pure env

/-- The engine whose hooks may call each other to a depth. -/
def engine (lib : FormLibrary) (host : Host) : Nat → Engine
  | 0 => { host, fire := fun _ _ _ _ _ => throw .exhausted }
  | depth + 1 =>
    { host
      fire := fun phase target subject env scope =>
        lib.fire (lib.engine host depth) phase target subject env scope }

/-- How deep the calls of hooks can go while a body is compiled. -/
def depth (lib : FormLibrary) (body : List Form) : Nat :=
  let forms := body ++ lib.forms
  (1 + (Form.bodyModuleNames forms).length) * (1 + (Form.bodyDefinedPairs forms).length)

/-- The engine for the compilation of a body. -/
def engineFor (lib : FormLibrary) (host : Host) (body : List Form) : Engine :=
  lib.engine host (lib.depth body)

/-- How a body is evaluated. -/
def evaluation (lib : FormLibrary) (g : Engine) (body : List Form) : EvaluateBody :=
  fun env scope => lib.evalBody g (.value .null) env scope body

/-- Compile a module written in forms. -/
def compile (lib : FormLibrary) (host : Host) (name : String) (env : CompileEnv)
    (body : List Form) : Run CompiledModule :=
  let g := lib.engineFor host body
  g.compile name env (lib.evaluation g body)

/-- A module to be compiled. -/
structure Task where
  name : String
  env : CompileEnv
  body : List Form

/-- Open the modules of several tasks, in order. -/
def openAll (lib : FormLibrary) (host : Host) :
    List Task → Run (List (Except Failure (Task × Opening)))
  | [] => pure []
  | t :: rest => do
    let opened ← Run.attempt ((lib.engineFor host t.body).openModule t.name t.env)
    let rest ← lib.openAll host rest
    pure (opened.map (t, ·) :: rest)

/-- Finish the tasks whose modules have been opened, in order. -/
def finishAll (lib : FormLibrary) (host : Host) :
    List (Except Failure (Task × Opening)) → Run (List (Except Failure CompiledModule))
  | [] => pure []
  | .error f :: rest => do
    let rest ← lib.finishAll host rest
    pure (.error f :: rest)
  | .ok (t, o) :: rest => do
    let g := lib.engineFor host t.body
    let compiled ← Run.attempt (g.finish o (lib.evaluation g t.body))
    let rest ← lib.finishAll host rest
    pure (compiled :: rest)

/-- Compile several modules side by side: all are opened before any is finished. -/
def compileAll (lib : FormLibrary) (host : Host) (tasks : List Task) :
    Run (List (Except Failure CompiledModule)) := do
  lib.finishAll host (← lib.openAll host tasks)

end FormLibrary
end ModuleBuild
