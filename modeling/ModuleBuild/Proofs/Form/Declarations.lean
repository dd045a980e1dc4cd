import ModuleBuild.Proofs.Compile.Declarations
import ModuleBuild.Proofs.Form.Isolation

/-! # Documentation of declarations

What a module written in forms writes to its attributes until its artifact is built
(`FormLibrary.writesUntilBuild`) is listed along the evaluation of its forms and hooks, however
deeply the hooks call each other; a module nested in it has attributes of its own.

The first documented declaration of a pair among the callbacks, or among the types, is in the
documentation that the artifact keeps (`compile_keeps_docs`).
-/
namespace ModuleBuild

open Run

/-! ## What forms write -/

/-- What an action writes to the module it stands in, hooks for a definition included. -/
def FormAction.writes (g : Engine) (fired : Engine.FireWrites) (scope : ModuleScope)
    (line : Option Int) : FormAction → World → List AttributeWrite
  | define kind pair clause => g.defineWrites fired scope
    { kind, pair, clauses := clause.toList, line }
  | write key v => Engine.putWrites scope key v
  | _ => fun _ => []

/-- What a form writes to the module it stands in. -/
def Form.writes (g : Engine) (fired : Engine.FireWrites) (scope : ModuleScope) :
    Form → World → List AttributeWrite
  | act line a => a.writes g fired scope line
  | _ => fun _ => []

/-- What a step of a hook writes, also if it fails. -/
def HookStep.writes (g : Engine) (fired : Engine.FireWrites) (scope : ModuleScope)
    (s : HookStep) (w : World) : List AttributeWrite :=
  s.forms.flatMap fun f => f.writes g fired scope w

namespace FormLibrary

section Writes

variable (lib : FormLibrary) (g : Engine) (fired : Engine.FireWrites)

/-- What forms write in turn. -/
def bodyWrites (scope : ModuleScope) : List Form → World → List AttributeWrite
  | [], _ => []
  | f :: rest, w => f.writes g fired scope w ++
    (lib.eval g scope f).after (fun _ => bodyWrites scope rest) w

/-- What the steps of a hook write in turn. -/
def stepsWrites (phase : HookPhase) (subject : HookSubject) (env : CompileEnv)
    (scope : ModuleScope) : List HookStep → World → List AttributeWrite
  | [], _ => []
  | s :: rest, w => s.writes g fired scope w ++
    (lib.runStep g phase subject env scope s).after
      (fun _ => stepsWrites phase subject env scope rest) w

/-- What a hook writes that answers a call. -/
def respondWrites (phase : HookPhase) (target : HookTarget) (subject : HookSubject)
    (env : CompileEnv) (scope : ModuleScope) : Option Hook → World → List AttributeWrite
  | none => fun _ => []
  | some hook => (Run.record (.dispatched target phase.arity env.line)).after fun _ w =>
    lib.stepsWrites g fired phase subject env scope hook.steps w ++
      (lib.runSteps g phase subject env scope hook.steps).after
        (fun _ => lib.bodyWrites g fired scope hook.expansion.toList) w

end Writes

/-- What the hooks write that may call each other to a depth. -/
def firedWrites (lib : FormLibrary) (host : Host) : Nat → Engine.FireWrites
  | 0 => fun _ _ _ _ _ _ => []
  | depth + 1 => fun phase target subject env scope w =>
    lib.respondWrites (lib.engine host depth) (lib.firedWrites host depth) phase target subject env
      scope (lib.hook? target w.log) w

section Compilation

variable (lib : FormLibrary) (host : Host) (name : String) (env : CompileEnv) (body : List Form)

/-- What the compilation of a body writes to its module until the artifact is built. -/
def writesUntilBuild : World → List AttributeWrite :=
  let g := lib.engineFor host body
  let fired := lib.firedWrites host (lib.depth body)
  g.compileWrites fired name env (lib.evaluation g body) fun _ scope =>
    lib.bodyWrites g fired scope body

/-- What it writes afterwards. -/
def writesAfterBuild : World → List AttributeWrite :=
  let g := lib.engineFor host body
  let fired := lib.firedWrites host (lib.depth body)
  g.afterCompileWrites fired name env (lib.evaluation g body)

end Compilation

/-! ## The lists are those of the runs -/

variable {lib : FormLibrary} {g : Engine} {fired : Engine.FireWrites}

/-- What the lists of writes rely on. -/
structure ListingLaw (lib : FormLibrary) (g : Engine) (fired : Engine.FireWrites) : Prop where
  docs : g.host.options.docs = true
  fire : g.FiresListed fired
  nested : ∀ name env body,
    Within (World.Leaves none) (g.compile name env (lib.evaluation g body))

theorem within_takes_call (t : Ticket) (target : HookTarget) (args : List Value) :
    Within (World.Takes t []) (lib.call target args) :=
  related_call (congruence_within (conduct_takes t)) target args (within_takes_emit _ _)

theorem lists_perform (hL : ListingLaw lib g fired) (scope : ModuleScope) (line : Option Int)
    (a : FormAction) : Lists scope.ticket (a.perform lib g scope line)
      (a.writes g fired scope line) := by
  have hR := conduct_takes scope.ticket
  cases a with
  | define kind pair clause =>
    exact (Engine.lists_define hL.fire _).bind fun _ => within_pure hR _
  | write key v => exact (Engine.lists_putAttribute hL.docs key v).bind fun _ => within_pure hR _
  | read key =>
    have hP := congruence_within hR
    exact lists_of_within (within_bind hR (hP.attributes scope) fun _ => within_pure hR _)
  | declare key policy =>
    exact lists_of_within
      (within_bind hR (within_takes_changeAttributes _) fun _ => within_pure hR _)
  | delete key =>
    exact lists_of_within
      (within_bind hR (within_takes_changeAttributes _) fun _ => within_pure hR _)
  | recordLocal pair =>
    exact lists_of_within
      (within_bind hR (Engine.within_takes_recordLocal _) fun _ => within_pure hR _)
  | call target args => exact lists_of_within (within_takes_call _ target args)
  | raise message => exact lists_of_within (within_fail hR _)
  | constant v => exact lists_of_within (within_pure hR _)
  | nothing => exact lists_of_within (within_pure hR _)

theorem lists_eval (hL : ListingLaw lib g fired) (scope : ModuleScope) (f : Form) :
    Lists scope.ticket (lib.eval g scope f) (f.writes g fired scope) := by
  have hR := conduct_takes scope.ticket
  cases f with
  | malformed => exact lists_of_within (within_fail hR _)
  | act line a =>
    unfold eval
    rw [map_eq_pure_bind]
    exact (lists_perform hL scope line a).bind fun _ => within_pure hR _
  | module line name body =>
    unfold eval
    -- the nested module has an entry of its own
    have hnested (env : CompileEnv) : Within (World.Takes scope.ticket [])
        (g.compile name env (lib.evaluation g body)) :=
      (hL.nested name env body).mono fun _ _ h e he => ⟨e, h.find? he, rfl, rfl⟩
    exact lists_of_within (within_bind hR (hnested _) fun _ => within_pure hR _)

theorem lists_evalBody (hL : ListingLaw lib g fired) (scope : ModuleScope) (value : FormResult)
    (env : CompileEnv) (body : List Form) :
    Lists scope.ticket (lib.evalBody g value env scope body)
      (lib.bodyWrites g fired scope body) := by
  induction body generalizing value env with
  | nil => exact lists_of_within (within_pure (conduct_takes scope.ticket) _)
  | cons f rest ih =>
    unfold evalBody
    exact lists_bind (lists_eval hL scope f) fun value => ih value (f.leave env)

theorem lists_runSteps (hL : ListingLaw lib g fired) (phase : HookPhase) (subject : HookSubject)
    (env : CompileEnv) (scope : ModuleScope) (steps : List HookStep) :
    Lists scope.ticket (lib.runSteps g phase subject env scope steps)
      (lib.stepsWrites g fired phase subject env scope steps) := by
  have hR := conduct_takes scope.ticket
  have hP := congruence_within hR
  have hstep (s : HookStep) : Lists scope.ticket (lib.runStep g phase subject env scope s)
      (s.writes g fired scope) := by
    unfold HookStep.writes
    cases s with
    | evaluate f =>
      simp only [HookStep.forms, List.flatMap_singleton]
      exact (lists_eval hL scope f).bind fun _ => within_takes_emit _ _
    | attempt f =>
      simp only [HookStep.forms, List.flatMap_singleton]
      exact (lists_attempt (lists_eval hL scope f)).bind fun _ => within_takes_emit _ _
    | stop f => exact lists_of_within (within_fail hR _)
    | note q =>
      have hanswer : Within (World.Takes scope.ticket []) (answer phase subject env scope q) :=
        related_answer hP phase subject env scope q
      exact lists_of_within (within_bind hR hanswer fun _ => within_takes_emit _ _)
  induction steps with
  | nil => exact lists_of_within (within_pure hR ())
  | cons s rest ih => exact lists_bind (hstep s) fun _ => ih

theorem lists_respond (hL : ListingLaw lib g fired) (phase : HookPhase) (target : HookTarget)
    (subject : HookSubject) (env : CompileEnv) (scope : ModuleScope) (answering : Option Hook) :
    Lists scope.ticket (lib.respond g phase target subject env scope answering)
      (lib.respondWrites g fired phase target subject env scope answering) := by
  have hR := conduct_takes scope.ticket
  cases answering with
  | none => exact lists_of_within (within_fail hR _)
  | some hook =>
    unfold respond respondWrites
    refine lists_bind_of_within (within_takes_emit _ _) fun _ => ?_
    refine lists_bind (lists_runSteps hL phase subject env scope hook.steps) fun _ => ?_
    cases hook.expansion with
    | none => exact lists_of_within (within_pure hR env)
    | some f => exact (lists_evalBody hL scope _ env [f]).bind fun _ => within_pure hR _

/-- **The writes of hooks are those that are listed**, however deeply hooks call each other. -/
theorem firesListed_engine (lib : FormLibrary) {host : Host} (hdocs : host.options.docs = true)
    (depth : Nat) : (lib.engine host depth).FiresListed (lib.firedWrites host depth) := by
  induction depth with
  | zero => exact fun _ _ _ _ _ _ hne => (hne rfl).elim
  | succ depth ih =>
    intro phase target subject env scope w hne
    have hL : ListingLaw lib (lib.engine host depth) (lib.firedWrites host depth) :=
      ⟨by rw [host_engine]; exact hdocs, ih, lib.nested_leaves host depth⟩
    exact lists_respond hL phase target subject env scope (lib.hook? target w.log) w hne

/-! ## What the artifact keeps -/

/-- What the artifact keeps of declarations is the documentation written until it was built. -/
theorem documentation_of_writes {host : Host} (hdocs : host.options.docs = true) {name : String}
    {env : CompileEnv} {body : List Form} {c : CompiledModule} {w w' : World}
    (h : lib.compile host name env body w = (.ok c, w')) :
    ∃ d, c.artifact.documentation = .ok (some d) ∧
      d.callbackDocs = DocEntry.kept
        ((lib.writesUntilBuild host name env body w).filterMap AttributeWrite.callbackDoc?) ∧
      d.typeDocs = DocEntry.kept
        ((lib.writesUntilBuild host name env body w).filterMap AttributeWrite.typeDoc?) := by
  have hhost : (lib.engineFor host body).host = host := host_engine (lib.depth body)
  have hfire : (lib.engineFor host body).FiresListed (lib.firedWrites host (lib.depth body)) :=
    lib.firesListed_engine hdocs (lib.depth body)
  have hL : ListingLaw lib (lib.engineFor host body) (lib.firedWrites host (lib.depth body)) :=
    ⟨by rw [hhost]; exact hdocs, hfire, lib.nested_leaves host (lib.depth body)⟩
  exact Engine.documentation_of_compile hfire
    (fun env scope => lists_evalBody hL scope (.value .null) env body) hL.docs h

/-- The first documented declaration of a pair is among the entries. -/
def KeepsFirst {κ : Type} (doc? : AttributeWrite → Option (DocEntry κ))
    (xs : List AttributeWrite) (kept : List (StoredDoc κ)) : Prop :=
  ∀ earlier x later e, xs = earlier ++ x :: later → doc? x = some e →
    (∀ y ∈ earlier, ∀ e', doc? y = some e' → e'.pair ≠ e.pair) → e.stored ∈ kept

theorem keepsFirst_kept {κ : Type} (doc? : AttributeWrite → Option (DocEntry κ))
    (xs : List AttributeWrite) : KeepsFirst doc? xs (DocEntry.kept (xs.filterMap doc?)) := by
  rintro earlier x later e rfl hx hfirst
  rw [List.filterMap_append, List.filterMap_cons, hx]
  refine DocEntry.mem_kept fun e' he' => ?_
  obtain ⟨y, hy, hdoc⟩ := List.mem_filterMap.mp he'
  exact hfirst y hy e' hdoc

/-- **The documentation of a declaration is kept**, if it is written until the artifact is built
and is the first of its name and arity among the documented callbacks, or types. -/
theorem compile_keeps_docs {lib : FormLibrary} {host : Host} (hdocs : host.options.docs = true)
    {name : String} {env : CompileEnv} {body : List Form} {c : CompiledModule} {w w' : World}
    (h : lib.compile host name env body w = (.ok c, w')) :
    ∃ d, c.artifact.documentation = .ok (some d) ∧
      KeepsFirst AttributeWrite.callbackDoc? (lib.writesUntilBuild host name env body w)
        d.callbackDocs ∧
      KeepsFirst AttributeWrite.typeDoc? (lib.writesUntilBuild host name env body w)
        d.typeDocs := by
  obtain ⟨d, hd, hcallbacks, htypes⟩ := documentation_of_writes hdocs h
  refine ⟨d, hd, ?_, ?_⟩
  · rw [hcallbacks]
    exact keepsFirst_kept _ _
  · rw [htypes]
    exact keepsFirst_kept _ _

/-! ## A module that documents more than is kept -/

namespace Crowded

/-- A form that declares a callback. -/
def form (name : String) (params : List Value) : Value :=
  .record [("name", .text name), ("params", .list params)]

/-- A library with a hook after compilation that documents a callback. -/
def library : FormLibrary :=
  ⟨[], [⟨"Late.__after_compile__", fun _ => true,
    [.evaluate (.act none (.write "doc" (.text "three"))),
      .evaluate (.act none (.write "callback" (form "g" [])))], none⟩]⟩

def host : Host where
  options := { CompilerOptions.default "/work" with isInternal := true }
  observe _ := none
  warn _ := none
  listener := none
  loader := none

def env : CompileEnv := ⟨"crowded", 1, none, none, []⟩

/-- A module that documents a callback and a macro callback of one name and arity. -/
def body : List Form :=
  [.act none (.write "after_compile" (.text "Late")),
    .act none (.write "doc" (.text "one")), .act none (.write "callback" (form "f" [.null])),
    .act none (.write "doc" (.text "two")), .act none (.write "macrocallback" (form "f" [.null]))]

/-- The world before: nothing is open or loaded. -/
def before : World := ⟨.empty, .empty, ⟨"run", []⟩, []⟩

/-- The callbacks that some writes document. -/
def documented (xs : List AttributeWrite) : List (CallbackKind × NameArity) :=
  (xs.filterMap AttributeWrite.callbackDoc?).map fun e => (e.kind, e.pair)

theorem fulfilled : (library.compile host "Crowded" env body before).1.isOk = true := by
  decide +kernel

end Crowded

open Crowded in
theorem compile_keeps_docs_crowded :
    ∃ c w' d, library.compile Crowded.host "Crowded" env body before = (.ok c, w') ∧
      c.artifact.documentation = .ok (some d) ∧
      KeepsFirst AttributeWrite.callbackDoc?
        (library.writesUntilBuild Crowded.host "Crowded" env body before) d.callbackDocs ∧
      KeepsFirst AttributeWrite.typeDoc?
        (library.writesUntilBuild Crowded.host "Crowded" env body before) d.typeDocs := by
  have hends := Crowded.fulfilled
  rcases hrun : library.compile Crowded.host "Crowded" env body before with ⟨stop | c, w'⟩
  · rw [hrun] at hends
    cases hends
  · obtain ⟨d, hd, hkept⟩ := compile_keeps_docs rfl hrun
    exact ⟨c, w', d, rfl, hd, hkept⟩

open Crowded in
/-- Three callbacks are documented that differ in kind, name or arity, and one is kept: the macro
callback is not the first of its name and arity, and the last one comes too late. -/
theorem callbackDocs_of_crowded :
    ∃ c w' d, library.compile Crowded.host "Crowded" env body before = (.ok c, w') ∧
      c.artifact.documentation = .ok (some d) ∧
      documented (library.writesUntilBuild Crowded.host "Crowded" env body before ++
          library.writesAfterBuild Crowded.host "Crowded" env body before)
        = [(.function, ⟨"f", 1⟩), (.macroFunction, ⟨"f", 1⟩), (.function, ⟨"g", 0⟩)] ∧
      d.callbackDocs.map (fun s => (s.kind, s.name, s.arity)) = [(.function, "f", .ofInt 1)] := by
  have hends := Crowded.fulfilled
  rcases hrun : library.compile Crowded.host "Crowded" env body before with ⟨stop | c, w'⟩
  · rw [hrun] at hends
    cases hends
  · obtain ⟨d, hd, hcallbacks, -⟩ := documentation_of_writes rfl hrun
    refine ⟨c, w', d, rfl, hd, by decide +kernel, ?_⟩
    rw [hcallbacks]
    decide +kernel

end FormLibrary
end ModuleBuild
