import ModuleBuild.Compile.World

/-! # What code may do to an open module

Bodies and hooks act on the module they belong to through its scope: they define
functions, write and read attributes, and record local calls.  A new definition
calls the hooks registered for definitions, those registered when it was made and
no others.
-/
namespace ModuleBuild

/-- How the hooks of other modules are run: a call in a context, answered by the
context that it leaves. -/
abbrev FireHook : Type :=
  HookPhase → HookTarget → HookSubject → CompileEnv → ModuleScope → Run CompileEnv

/-- What a run needs besides its world. -/
structure Engine where
  host : Host
  fire : FireHook

namespace Engine

/-- Move the documentation that waits for a definition to that definition. -/
def takeDefinitionDoc (scope : ModuleScope) (d : Definition) : Run Unit := do
  let t ← Run.attributes scope
  if t.has "doc" then
    let entry : DocEntry DefinitionKind :=
      { kind := d.kind, pair := d.pair, line := Number.ofInt d.location.line
        doc := t.read "doc" }
    Run.updateEntry scope fun e => { e with docs := e.docs.addDefinition entry }
    Run.changeAttributes scope (·.delete "doc")

/-- Run a hook that the compiler itself provides. -/
def runBuiltin (scope : ModuleScope) (name : String) (subject : HookSubject) : Run Unit :=
  if name = "compile_doc" then
    match subject with
    | .definition d => takeDefinitionDoc scope d
    | _ => Run.fail (.typeError "compile_doc expects a definition")
  else if name = "delete_doc" then Run.changeAttributes scope (·.delete "doc")
  else Run.fail (.typeError ("unknown compiler hook " ++ name))

/-- Call the target of a registered value, whatever comes of it. -/
def callHook (g : Engine) (phase : HookPhase) (hook : Value) (subject : HookSubject)
    (env : CompileEnv) (scope : ModuleScope) : Run CompileEnv :=
  match HookTarget.ofValue? phase hook with
  | none => Run.fail (HookTarget.refusal phase hook)
  | some target =>
    if target.module = compilerHookModule then do
      runBuiltin scope target.function subject
      pure env
    else g.fire phase target subject env scope

/-- Call a registered hook.  What it throws is wrapped with the place of the
call. -/
def runHook (g : Engine) (phase : HookPhase) (subject : HookSubject) (scope : ModuleScope)
    (env : CompileEnv) (hook : Value) : Run CompileEnv := do
  Run.record (.fired phase scope.module hook env)
  let site := HookTarget.callSite phase hook ⟨env.file, env.line⟩
  match ← Run.attempt (g.callHook phase hook subject env scope) with
  | .ok env => pure env
  | .error f =>
    Run.fail (.ofHook phase.key site (Frame.prune f.frames site) f site.location)

/-- Call hooks in turn, each in the same context. -/
def runEach (g : Engine) (phase : HookPhase) (subject : HookSubject) (scope : ModuleScope)
    (env : CompileEnv) : List Value → Run Unit
  | [] => pure ()
  | hook :: rest => do
    let _ ← g.runHook phase subject scope env hook
    g.runEach phase subject scope env rest

/-- Call hooks in turn, each in the context that the one before it left. -/
def runThrough (g : Engine) (phase : HookPhase) (subject : HookSubject) (scope : ModuleScope) :
    CompileEnv → List Value → Run CompileEnv
  | env, [] => pure env
  | env, hook :: rest => do
    let env ← g.runHook phase subject scope env hook
    g.runThrough phase subject scope env rest

/-- Call the hooks for a new definition that are registered now. -/
def runOnDefinition (g : Engine) (scope : ModuleScope) (env : CompileEnv) (d : Definition) :
    Run Unit := do
  let hooks := (← Run.attributes scope).readAll HookPhase.onDefinition.key
  g.runEach .onDefinition (.definition d) scope env hooks

/-- Call the hooks before compilation, the last registered first. -/
def runBeforeCompile (g : Engine) (scope : ModuleScope) (env : CompileEnv) : Run CompileEnv := do
  let hooks := (← Run.attributes scope).readAll HookPhase.beforeCompile.key
  g.runThrough .beforeCompile .none scope env hooks.reverse

/-- Call the hooks after compilation, the last registered first. -/
def runAfterCompile (g : Engine) (scope : ModuleScope) (env : CompileEnv) (a : Artifact) :
    Run Unit := do
  let hooks := (← Run.attributes scope).readAll HookPhase.afterCompile.key
  let _ ← g.runThrough .afterCompile (.artifact a) scope env hooks.reverse
  pure ()

/-- A definition as code makes it. -/
structure NewDefinition where
  kind : DefinitionKind
  pair : NameArity
  clauses : List Value
  line : Option Int

/-- Add a definition to the scope's module; a new one calls the hooks. -/
def define (g : Engine) (scope : ModuleScope) (n : NewDefinition) :
    Run (Definition × Bool) := do
  let location : Location := ⟨scope.env.file, n.line.getD scope.env.line⟩
  let e ← Run.entry scope
  if e.phase.canDefine then
    let (d, isNew, definitions) ← Run.ofProblem
      (e.definitions.define { kind := n.kind, pair := n.pair, clauses := n.clauses, location })
    Run.updateEntry scope fun e => { e with definitions }
    if isNew then
      g.runOnDefinition scope { scope.env with line := location.line, function := some n.pair } d
    pure (d, isNew)
  else
    Run.fail (.ofProblem
      ⟨.definitionsClosed n.pair scope.module e.phase.name, some location⟩)

/-- The name, number of parameters and line of a declared form, if it has them. -/
def declaredForm? (form : Value) (line : Int) : Option (NameArity × Number) :=
  match form.get "name", form.get "params" with
  | .text n, .list ps => some (⟨n, ps.length⟩, ((form.get "line").asNumber?).getD (.ofInt line))
  | _, _ => none

/-- Take up the documentation that waits under a key for a declared form. -/
def takePendingDoc (g : Engine) (scope : ModuleScope) (key : String) (form : Value) :
    Run (Option (NameArity × Number × Value)) := do
  let t ← Run.attributes scope
  if t.has key then
    let doc := t.read key
    Run.changeAttributes scope (·.delete key)
    pure <|
      if g.host.options.docs then
        (declaredForm? form scope.env.line).map fun f => (f.1, f.2, doc)
      else none
  else pure none

/-- Write an attribute.  The declaration of a type takes up the waiting `typedoc`,
the declaration of a callback the waiting `doc`. -/
def putAttribute (g : Engine) (scope : ModuleScope) (key : String) (v : Value) : Run Unit := do
  Run.changeAttributes scope (·.write key v)
  match TypeKind.ofKey? key, CallbackKind.ofKey? key with
  | some kind, _ =>
    if let some (pair, line, doc) ← g.takePendingDoc scope "typedoc" v then
      Run.updateEntry scope fun e => { e with docs := e.docs.addType { kind, pair, line, doc } }
  | none, some kind =>
    if let some (pair, line, doc) ← g.takePendingDoc scope "doc" v then
      Run.updateEntry scope fun e =>
        { e with docs := e.docs.addCallback { kind, pair, line, doc } }
  | none, none => pure ()

/-- What an attribute reads as. -/
def readAttribute (scope : ModuleScope) (key : String) : Run Value := do
  return (← Run.attributes scope).read key

/-- Record a pair as used. -/
def recordLocal (scope : ModuleScope) (p : NameArity) : Run Unit := do
  let definitions ← Run.ofCondition ((← Run.entry scope).definitions.recordLocal p)
  Run.updateEntry scope fun e => { e with definitions }

end Engine
end ModuleBuild
