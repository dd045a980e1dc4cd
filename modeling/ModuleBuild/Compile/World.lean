import ModuleBuild.CodeSession
import ModuleBuild.Compile.Hook
import ModuleBuild.Options
import ModuleBuild.Phase
import ModuleBuild.Registry

/-! # Compilation runs

A run changes a `World`: the registry of open modules, the loaded modules, the
artifacts produced, and a log of what has happened.  A run ends with a result or
stops with a failure, and in both cases leaves a world.  `Stop.exhausted` says
that hooks have called each other more deeply than the run allows.

The host takes part through a `Host`: it may make an observer, the receiver of
warnings, the listener or the loader fail, depending on all that has happened so
far.
-/
namespace ModuleBuild

/-- The lexical context of code that runs while modules are compiled. -/
structure CompileEnv where
  file : String
  line : Int
  /-- The module whose body is evaluated. -/
  module : Option String
  /-- The definition whose body is evaluated. -/
  function : Option NameArity
  /-- The modules being compiled, the outermost first. -/
  compiling : List String
  deriving DecidableEq, Repr

/-- An open module as its body and its hooks see it. -/
structure ModuleScope where
  module : String
  ticket : Ticket
  env : CompileEnv

/-- What a form evaluates to. -/
inductive FormResult where
  | value (v : Value)
  | compiled (module : String)

/-- What a hook is given besides the context. -/
inductive HookSubject where
  | none
  | definition (d : Definition)
  | artifact (a : Artifact)

/-- What a hook notes down of what it sees. -/
inductive Note where
  | evaluated (result : FormResult)
  | tried (outcome : Except Failure FormResult)
  | contexts (env scopeEnv : CompileEnv)
  | arguments (count : Nat) (subject : HookSubject)
  | chunks (subject : HookSubject)
  | scope (module : String) (phase : Phase)
  | openState (module : String) (isOpen : Bool)
  | attributeState (outcome : Except Failure Value)

/-- What happens in a run. -/
inductive Event where
  /-- A module was opened; observers are told. -/
  | opened (module : String) (location : Location) (compiling : List String)
  /-- A module went from one phase to another; observers are told. -/
  | moved (module : String) (move : Phase.Move)
  /-- A module's artifact was produced; observers are told. -/
  | available (module sessionId : String) (size : Nat)
  /-- The compilation of a module failed; observers are told. -/
  | failed (module : String) (failure : Failure)
  /-- A module was closed; observers are told. -/
  | closed (module : String) (fulfilled : Bool)
  /-- A warning was given on behalf of a module. -/
  | warned (module : String) (diagnostic : Diagnostic)
  /-- The session's listener was told of an artifact. -/
  | listened (module sessionId file : String) (artifact : Artifact)
  /-- The host's loader was asked to load a module. -/
  | loading (module file sessionId : String)
  /-- A registered hook was called. -/
  | fired (phase : HookPhase) (module : String) (hook : Value) (env : CompileEnv)
  /-- A hook of the host's began to run. -/
  | dispatched (target : HookTarget) (arguments : Nat) (line : Int)
  /-- A function of the host's was called. -/
  | called (target : HookTarget) (args : List Value)
  /-- A hook noted something down. -/
  | noted (note : Note)

/-- What a run can read and change. -/
structure World where
  registry : Registry
  code : CodeSession
  session : CompilationSession
  /-- What has happened, in order. -/
  log : List Event

/-- Why a run stops. -/
inductive Stop where
  | failed (failure : Failure)
  | exhausted

/-- A run. -/
abbrev Run (α : Type) : Type := ExceptT Stop (StateM World) α

/-- How the host's loader answers: with the origin of the loaded module or with the
reason why it could not be loaded. -/
abbrev LoadAnswer : Type := Except Failure (Except String LoadOrigin)

/-- How the host takes part in runs; all of it may depend on the log. -/
structure Host where
  options : CompilerOptions
  /-- Whether the observer told of the last event fails. -/
  observe : List Event → Option Failure
  /-- Whether the receiver of the last warning fails. -/
  warn : List Event → Option Failure
  /-- Whether the listener told of the last artifact fails, if there is one. -/
  listener : Option (List Event → Option Failure)
  /-- The loader, if it is not the one that loads into the code session. -/
  loader : Option (List Event → LoadAnswer)

namespace Run

/-- Stop with a failure. -/
def fail {α : Type} (f : Failure) : Run α := throw (.failed f)

/-- The value of a condition's computation; the condition stops the run. -/
def ofCondition {α : Type} : Except Condition α → Run α
  | .ok a => pure a
  | .error c => fail (.ofProblem { condition := c })

/-- The value of a computation; a problem stops the run. -/
def ofProblem {α : Type} : Except Problem α → Run α
  | .ok a => pure a
  | .error p => fail (.ofProblem p)

/-- The value of a computation; a failure stops the run. -/
def ofFailure {α : Type} : Except Failure α → Run α
  | .ok a => pure a
  | .error f => fail f

/-- Run, and answer the failure if it stops with one. -/
def attempt {α : Type} (r : Run α) : Run (Except Failure α) := fun w =>
  match r w with
  | (.ok a, w) => (.ok (.ok a), w)
  | (.error (.failed f), w) => (.ok (.error f), w)
  | (.error .exhausted, w) => (.error .exhausted, w)

/-- Log an event, and let the host answer to the log. -/
def emit {α : Type} (e : Event) (answer : List Event → α) : Run α := do
  modify fun w => { w with log := w.log ++ [e] }
  return answer (← get).log

/-- Log an event that nobody answers to. -/
def record (e : Event) : Run Unit := emit e fun _ => ()

/-- Give a warning on behalf of a module; its receiver may fail. -/
def warn (host : Host) (module : String) (d : Diagnostic) : Run Unit := do
  match ← emit (.warned module d) host.warn with
  | some f => fail f
  | none => pure ()

/-- Tell an observer of an event; an observer that fails becomes a warning, which says
why it failed.  If that cannot be said, the run stops. -/
def notify (host : Host) (callback module : String) (location : Location) (e : Event) :
    Run Unit := do
  match ← emit e host.observe with
  | some f =>
    let reason ← ofFailure f.describe
    warn host module
      { code := .observerFailed, location
        context := [("callback", callback), ("module", module), ("reason", reason)] }
  | none => pure ()

/-- The entry of a scope's module. -/
def entry (s : ModuleScope) : Run ModuleEntry := do
  match (← get).registry.find? s.ticket with
  | some e => pure e
  | none => fail (.ofProblem { condition := .moduleNotOpen s.module })

/-- Change the entry of a scope's module. -/
def updateEntry (s : ModuleScope) (f : ModuleState → ModuleState) : Run Unit :=
  modify fun w => { w with registry := w.registry.update s.ticket f }

/-- The attributes of a scope's module. -/
def attributes (s : ModuleScope) : Run AttributeTable := do
  ofCondition (← entry s).attributes.live

/-- Change the attributes of a scope's module. -/
def changeAttributes (s : ModuleScope)
    (f : AttributeStore → Except Condition AttributeStore) : Run Unit := do
  let attributes ← ofCondition (f (← entry s).attributes)
  updateEntry s fun e => { e with attributes }

end Run
end ModuleBuild
