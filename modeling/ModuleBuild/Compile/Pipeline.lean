import ModuleBuild.Artifact.Build
import ModuleBuild.Compile.Scope
import ModuleBuild.Failure.Normalize
import ModuleBuild.Path

/-! # Compiling a module

A module is opened, its body is evaluated, the hooks before compilation run, its
parts are assembled, its artifact is built, the hooks after compilation run, and
the artifact is handed to the session and to the loader.  However that ends, the
module is closed before its result or failure reaches the caller.

The body is any computation on the module's scope and context.
-/
namespace ModuleBuild

/-- A compiled module. -/
structure CompiledModule where
  module : String
  location : Location
  artifact : Artifact
  exports : List NameArity
  warnings : List Diagnostic
  /-- What the body evaluated to. -/
  value : FormResult
  loaded : LoadedModule

/-- How the body of a module is evaluated. -/
abbrev EvaluateBody : Type := CompileEnv → ModuleScope → Run (FormResult × CompileEnv)

/-- A module that has been opened. -/
structure Opening where
  scope : ModuleScope
  location : Location
  /-- The warnings given so far. -/
  warnings : List Diagnostic

namespace Engine

/-- Open a module. -/
def openModule (g : Engine) (name : String) (env : CompileEnv) : Run Opening := do
  let options := g.host.options
  let location : Location := ⟨Path.relativeTo options.relativeTo env.file, env.line⟩
  let w ← get
  let loaded := if options.ignoreModuleConflict then none else w.code.get? name
  let (warning, opened) := w.registry.openModule loaded name w.session.id location options.docs
  warning.forM (Run.warn g.host name)
  let (ticket, registry) ← Run.ofProblem opened
  modify fun w => { w with registry }
  let moduleEnv : CompileEnv :=
    { env with module := some name, function := none, compiling := env.compiling ++ [name] }
  pure { scope := ⟨name, ticket, moduleEnv⟩, location, warnings := warning.toList }

/-- Make a move of the module's phase, and tell the observer. -/
def move (g : Engine) (o : Opening) (m : Phase.Move) : Run Unit := do
  Run.updateEntry o.scope fun e => { e with phase := m.2 }
  Run.notify g.host "onPhase" o.scope.module o.location (.moved o.scope.module m)

/-- Go on to a phase, which must be the one that follows. -/
def advance (g : Engine) (o : Opening) (target : Phase) : Run Unit := do
  let e ← Run.entry o.scope
  g.move o (← Run.ofCondition (e.phase.advance o.scope.module target))

/-- The pair that a value of the `on_load` attribute names: a function without
parameters, or a name with an arity.  An arity that is no integer belongs to no
definition. -/
def onLoadPair? : Value → Option (Option NameArity)
  | .text n => some (some ⟨n, 0⟩)
  | v =>
    match v.get "name", v.get "arity" with
    | .text n, .number a => some (a.toInt?.map fun a => ⟨n, a⟩)
    | _, _ => none

/-- What is wrong with a value of the `on_load` attribute that names no pair. -/
def onLoadRefusal (o : Opening) (v : Value) : Failure :=
  .saying (v.toText.mapError .ofFault) fun text =>
    .ofBuild o.scope.module ("invalid @on_load target " ++ text) (some o.location) .none

/-- Record what the `on_load` attribute names as used. -/
def recordOnLoad (o : Opening) : List Value → Run Unit
  | [] => pure ()
  | v :: rest => do
    match onLoadPair? v with
    | none => Run.fail (onLoadRefusal o v)
    | some p => p.forM (recordLocal o.scope)
    recordOnLoad o rest

/-- Assemble the parts of the module. -/
def assemble (g : Engine) (o : Opening) : Run Assembly := do
  recordOnLoad o ((← Run.attributes o.scope).readAll "on_load")
  let e ← Run.entry o.scope
  let attributes ← Run.ofCondition e.attributes.live
  let definitions ← Run.ofCondition e.definitions.live
  Run.ofFailure (Assembly.ofTables o.scope.module o.location attributes definitions
    g.host.options.docs g.host.options.isInternal)

/-- Build the artifact of the assembled module, with its documentation if that is
collected. -/
def build (g : Engine) (o : Opening) (m : Assembly) : Run Artifact := do
  let artifact ← Run.ofFailure m.build
  if g.host.options.docs then
    let e ← Run.entry o.scope
    let attributes ← Run.ofCondition e.attributes.live
    let docs := e.docs.toValue ⟨.ofInt o.location.line, attributes.read "moduledoc"⟩
    Run.ofFailure (artifact.inject "Docs" (Term.payload docs) ⟨o.scope.module, o.location⟩)
  else pure artifact

/-- Hand the artifact to the session, and tell its listener and the observer. -/
def produce (g : Engine) (o : Opening) (a : Artifact) : Run Unit := do
  let module := o.scope.module
  modify fun w => { w with session := w.session.produce module a }
  let sessionId := (← get).session.id
  if let some listener := g.host.listener then
    if let some f ← Run.emit (.listened module sessionId o.location.file a) listener then
      Run.fail f
  Run.notify g.host "onModuleAvailable" module o.location (.available module sessionId a.size)

/-- Load the artifact: into the code session, or by the host's loader. -/
def load (g : Engine) (o : Opening) (a : Artifact) : Run LoadedModule := do
  let module := o.scope.module
  match g.host.loader with
  | none =>
    let loaded : LoadedModule := ⟨module, a, .memory⟩
    modify fun w => { w with code := w.code.register loaded }
    pure loaded
  | some loader =>
    let sessionId := (← get).session.id
    match ← Run.emit (.loading module o.location.file sessionId) loader with
    | .error f => Run.fail f
    | .ok (.error reason) => Run.fail (.ofBuild module reason (some o.location) .none)
    | .ok (.ok origin) => pure ⟨module, a, origin⟩

/-- Compile an opened module. -/
def compileOpened (g : Engine) (o : Opening) (evaluate : EvaluateBody) : Run CompiledModule := do
  let scope := o.scope
  let (value, env) ← evaluate scope.env scope
  g.advance o .beforeHooks
  let env ← g.runBeforeCompile scope env
  g.advance o .assembling
  let m ← g.assemble o
  m.warnings.forM (Run.warn g.host scope.module)
  g.advance o .building
  let artifact ← g.build o m
  g.advance o .afterHooks
  g.runAfterCompile scope env artifact
  g.produce o artifact
  let loaded ← g.load o artifact
  pure
    { module := scope.module, location := o.location, artifact, exports := m.exports
      warnings := o.warnings ++ m.warnings, value, loaded }

/-- Close a module: its phase first, then its entry, and then the observer is
told. -/
def closeModule (g : Engine) (o : Opening) (fulfilled : Bool) : Run Unit := do
  let e ← Run.entry o.scope
  if let some m := e.phase.close? then g.move o m
  modify fun w => { w with registry := w.registry.close o.scope.ticket }
  Run.notify g.host "onModuleClose" o.scope.module o.location (.closed o.scope.module fulfilled)

/-- Tell the observer of a failure, which is first made to speak of the module
being compiled, and stop with it. -/
def reject {α : Type} (g : Engine) (o : Opening) (f : Failure) : Run α := do
  let f := f.normalize o.scope.module o.location
  Run.notify g.host "onError" o.scope.module o.location (.failed o.scope.module f)
  Run.fail f

/-- Compile an opened module, and close it however that ends.  What goes wrong in
closing takes the place of the result. -/
def finish (g : Engine) (o : Opening) (evaluate : EvaluateBody) : Run CompiledModule := do
  let outcome ← Run.attempt do
    Run.notify g.host "onModuleOpen" o.scope.module o.location
      (.opened o.scope.module o.location o.scope.env.compiling)
    g.compileOpened o evaluate
  match outcome with
  | .ok compiled =>
    g.closeModule o true
    pure compiled
  | .error f =>
    let rejected ← Run.attempt (g.reject (α := CompiledModule) o f)
    g.closeModule o false
    Run.ofFailure rejected

/-- Compile a module. -/
def compile (g : Engine) (name : String) (env : CompileEnv) (evaluate : EvaluateBody) :
    Run CompiledModule := do
  let o ← g.openModule name env
  g.finish o evaluate

end Engine
end ModuleBuild
