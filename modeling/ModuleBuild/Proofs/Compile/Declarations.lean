import ModuleBuild.Proofs.Compile.Handover
import ModuleBuild.Proofs.Compile.Writes

/-! # What a module writes while it is compiled

The writes of a compilation to the attributes of its module are listed in the order of writing
(`compileWrites`): those of the body, of the hooks for definitions and of the hooks before
compilation.  The artifact is built then, so the documentation that it keeps is that of these
writes (`documentation_of_compile`), and not of those that the hooks after compilation add
(`afterCompileWrites`).
-/
namespace ModuleBuild

open Run

namespace Engine

variable {g : Engine} {scope : ModuleScope}

/-! ## Hooks and definitions -/

/-- What the hooks of other modules write to the module they are called for. -/
abbrev FireWrites : Type :=
  HookPhase → HookTarget → HookSubject → CompileEnv → ModuleScope → World → List AttributeWrite

/-- The writes of the hooks of other modules are those that are listed for them. -/
def FiresListed (g : Engine) (fired : FireWrites) : Prop :=
  ∀ phase target subject env (scope : ModuleScope), Lists scope.ticket
    (g.fire phase target subject env scope) (fired phase target subject env scope)

/-- The writes of a call; the compiler's own hooks write nothing. -/
def callWrites (fired : FireWrites) (phase : HookPhase) (hook : Value) (subject : HookSubject)
    (env : CompileEnv) (scope : ModuleScope) : World → List AttributeWrite :=
  match HookTarget.ofValue? phase hook with
  | none => fun _ => []
  | some target =>
    if target.module = compilerHookModule then fun _ => []
    else fired phase target subject env scope

/-- The writes of a registered hook. -/
def hookWrites (fired : FireWrites) (phase : HookPhase) (subject : HookSubject)
    (scope : ModuleScope) (env : CompileEnv) (hook : Value) : World → List AttributeWrite :=
  (Run.record (.fired phase scope.module hook env)).after fun _ =>
    callWrites fired phase hook subject env scope

/-- The writes of hooks in turn, each called in the same context. -/
def eachWrites (g : Engine) (fired : FireWrites) (phase : HookPhase) (subject : HookSubject)
    (scope : ModuleScope) (env : CompileEnv) : List Value → World → List AttributeWrite
  | [], _ => []
  | hook :: rest, w => hookWrites fired phase subject scope env hook w ++
    (g.runHook phase subject scope env hook).after
      (fun _ => g.eachWrites fired phase subject scope env rest) w

/-- The writes of hooks in turn, each called in the context that the one before it left. -/
def throughWrites (g : Engine) (fired : FireWrites) (phase : HookPhase) (subject : HookSubject)
    (scope : ModuleScope) : CompileEnv → List Value → World → List AttributeWrite
  | _, [], _ => []
  | env, hook :: rest, w => hookWrites fired phase subject scope env hook w ++
    (g.runHook phase subject scope env hook).after
      (fun env => g.throughWrites fired phase subject scope env rest) w

/-- The writes of the hooks for a new definition. -/
def onDefinitionWrites (g : Engine) (fired : FireWrites) (scope : ModuleScope) (env : CompileEnv)
    (d : Definition) : World → List AttributeWrite :=
  (Run.attributes scope).after fun t =>
    g.eachWrites fired .onDefinition (.definition d) scope env
      (t.readAll HookPhase.onDefinition.key)

/-- The writes of the hooks before compilation. -/
def beforeCompileWrites (g : Engine) (fired : FireWrites) (scope : ModuleScope)
    (env : CompileEnv) : World → List AttributeWrite :=
  (Run.attributes scope).after fun t =>
    g.throughWrites fired .beforeCompile .none scope env
      (t.readAll HookPhase.beforeCompile.key).reverse

/-- The writes that follow a definition: those of its hooks, if it is new. -/
def defineWrites (g : Engine) (fired : FireWrites) (scope : ModuleScope) (n : NewDefinition)
    (w : World) : List AttributeWrite :=
  match n.accept scope w with
  | .ok (d, true, w₁) => g.onDefinitionWrites fired scope { scope.env with
      line := (n.definition scope).location.line, function := some n.pair } d w₁
  | _ => []

section Calls

variable {fired : FireWrites} (hfire : g.FiresListed fired)
include hfire

theorem lists_callHook (phase : HookPhase) (hook : Value) (subject : HookSubject)
    (env : CompileEnv) : Lists scope.ticket (g.callHook phase hook subject env scope)
      (callWrites fired phase hook subject env scope) := by
  have hR := conduct_takes scope.ticket
  unfold callHook callWrites
  cases HookTarget.ofValue? phase hook with
  | none => exact lists_of_within (within_fail hR _)
  | some target =>
    by_cases hbuiltin : target.module = compilerHookModule
    · simp only [hbuiltin, if_true]
      exact lists_of_within
        (within_bind hR (within_takes_runBuiltin _ _) fun _ => within_pure hR env)
    · simp only [hbuiltin, if_false]
      exact hfire _ _ _ _ _

theorem lists_runHook (phase : HookPhase) (subject : HookSubject) (env : CompileEnv)
    (hook : Value) : Lists scope.ticket (g.runHook phase subject scope env hook)
      (hookWrites fired phase subject scope env hook) := by
  have hR := conduct_takes scope.ticket
  refine lists_bind_of_within (within_takes_emit _ _) fun _ => ?_
  refine (lists_attempt (lists_callHook hfire phase hook subject env)).bind fun outcome => ?_
  cases outcome with
  | ok env => exact within_pure hR env
  | error f => exact within_fail hR _

theorem lists_runEach (phase : HookPhase) (subject : HookSubject) (env : CompileEnv)
    (hooks : List Value) : Lists scope.ticket (g.runEach phase subject scope env hooks)
      (g.eachWrites fired phase subject scope env hooks) := by
  induction hooks with
  | nil => exact lists_of_within (within_pure (conduct_takes scope.ticket) ())
  | cons hook rest ih =>
    exact lists_bind (lists_runHook hfire phase subject env hook) fun _ => ih

theorem lists_runThrough (phase : HookPhase) (subject : HookSubject) (env : CompileEnv)
    (hooks : List Value) : Lists scope.ticket (g.runThrough phase subject scope env hooks)
      (g.throughWrites fired phase subject scope env hooks) := by
  induction hooks generalizing env with
  | nil => exact lists_of_within (within_pure (conduct_takes scope.ticket) env)
  | cons hook rest ih => exact lists_bind (lists_runHook hfire phase subject env hook) ih

theorem lists_runOnDefinition (env : CompileEnv) (d : Definition) :
    Lists scope.ticket (g.runOnDefinition scope env d)
      (g.onDefinitionWrites fired scope env d) :=
  lists_bind_of_within ((congruence_within (conduct_takes scope.ticket)).attributes scope)
    fun _ => lists_runEach hfire _ _ _ _

theorem lists_runBeforeCompile (env : CompileEnv) :
    Lists scope.ticket (g.runBeforeCompile scope env) (g.beforeCompileWrites fired scope env) :=
  lists_bind_of_within ((congruence_within (conduct_takes scope.ticket)).attributes scope)
    fun _ => lists_runThrough hfire _ _ _ _

/-- A definition writes nothing itself. -/
theorem lists_define (n : NewDefinition) :
    Lists scope.ticket (g.define scope n) (g.defineWrites fired scope n) := by
  intro w
  rw [define_eq]
  unfold defineWrites
  cases haccept : n.accept scope w with
  | error f => exact fun _ => .of_registry rfl
  | ok answer =>
    obtain ⟨d, isNew, w₁⟩ := answer
    obtain ⟨e, ds, -, -, -, rfl⟩ := NewDefinition.accept_eq_ok haccept
    have haccepted : World.Takes scope.ticket [] w { w with
        registry := w.registry.update scope.ticket fun s => { s with definitions := ds } } :=
      .update fun _ _ => ⟨rfl, rfl⟩
    cases isNew with
    | false => exact fun _ => haccepted
    | true =>
      have hon (env : CompileEnv) : Lists scope.ticket (g.runOnDefinition scope env d)
          (g.onDefinitionWrites fired scope env d) := lists_runOnDefinition hfire env d
      have hannounce := (hon { scope.env with
        line := (n.definition scope).location.line, function := some n.pair }).bind
          fun _ => within_pure (conduct_takes scope.ticket) (d, true)
      exact fun hne => haccepted.append (hannounce _ hne)

end Calls

/-! ## Up to the building of the artifact -/

theorem within_takes_advance (g : Engine) (o : Opening) (target : Phase) :
    Within (World.Takes o.scope.ticket []) (g.advance o target) := by
  have hN := notifyingLaw_takes o.scope.ticket
  change within _ (g.advance o target) (g.advance o target)
  refine hN.bind (hN.entry _) fun e => hN.bind (hN.ofCondition _) fun m => ?_
  exact hN.bind (within_takes_updateEntry fun _ => ⟨rfl, rfl⟩) fun _ =>
    hN.notify_of _ _ _ _ (within_takes_emit _ _)

theorem within_takes_assemble (g : Engine) (o : Opening) :
    Within (World.Takes o.scope.ticket []) (g.assemble o) := by
  change within _ (g.assemble o) (g.assemble o)
  exact related_assemble (congruence_within (conduct_takes o.scope.ticket)) within_takes_recordLocal

theorem within_takes_build (g : Engine) (o : Opening) (m : Assembly) :
    Within (World.Takes o.scope.ticket []) (g.build o m) := by
  change within _ (g.build o m) (g.build o m)
  exact related_build (congruence_within (conduct_takes o.scope.ticket)) m

/-- What a body writes to its module. -/
abbrev BodyWrites : Type := CompileEnv → ModuleScope → World → List AttributeWrite

/-- What is written before the artifact of an opened module is built: by its body, and by the
hooks before compilation. -/
def makeWrites (g : Engine) (fired : FireWrites) (o : Opening) (evaluate : EvaluateBody)
    (bodyWrites : BodyWrites) (w : World) : List AttributeWrite :=
  bodyWrites o.scope.env o.scope w ++ (evaluate o.scope.env o.scope).after (fun (_, env) =>
    (g.advance o .beforeHooks).after fun _ => g.beforeCompileWrites fired o.scope env) w

/-- What a compilation writes to its module before the artifact is built. -/
def compileWrites (g : Engine) (fired : FireWrites) (name : String) (env : CompileEnv)
    (evaluate : EvaluateBody) (bodyWrites : BodyWrites) : World → List AttributeWrite :=
  (g.openModule name env).after fun o =>
    (Run.notify g.host "onModuleOpen" o.scope.module o.location
      (.opened o.scope.module o.location o.scope.env.compiling)).after fun _ =>
        g.makeWrites fired o evaluate bodyWrites

/-- What the hooks after compilation write to the module. -/
def afterCompileWrites (g : Engine) (fired : FireWrites) (name : String) (env : CompileEnv)
    (evaluate : EvaluateBody) : World → List AttributeWrite :=
  (g.openAndMake name env evaluate).after fun (o, _, env, _, a) =>
    (g.advance o .afterHooks).after fun _ =>
      (Run.attributes o.scope).after fun t =>
        g.throughWrites fired .afterCompile (.artifact a) o.scope env
          (t.readAll HookPhase.afterCompile.key).reverse

theorem lists_make {fired : FireWrites} (hfire : g.FiresListed fired) {o : Opening}
    {evaluate : EvaluateBody} {bodyWrites : BodyWrites}
    (hevaluate : ∀ env (scope : ModuleScope),
      Lists scope.ticket (evaluate env scope) (bodyWrites env scope)) :
    Lists o.scope.ticket (g.make o evaluate) (g.makeWrites fired o evaluate bodyWrites) := by
  have hR := conduct_takes o.scope.ticket
  have hN := notifyingLaw_takes o.scope.ticket
  refine lists_bind (hevaluate _ _) fun ⟨value, env⟩ => ?_
  refine lists_bind_of_within (within_takes_advance g o _) fun _ => ?_
  refine (lists_runBeforeCompile hfire env).bind fun env => ?_
  refine within_bind hR (within_takes_advance g o _) fun _ => ?_
  refine within_bind hR (within_takes_assemble g o) fun m => ?_
  refine within_bind hR (hN.list_forM (hN.warn _ _) m.warnings :) fun _ => ?_
  refine within_bind hR (within_takes_advance g o _) fun _ => ?_
  exact within_bind hR (within_takes_build g o m) fun a => within_pure hR _

/-- The artifact keeps the documentation that the module has when it is built. -/
theorem documentation_of_build {o : Opening} {m : Assembly} {a : Artifact} {w w' : World}
    (h : g.build o m w = (.ok a, w')) (hdocs : g.host.options.docs = true) :
    ∃ e moduledoc, w.registry.find? o.scope.ticket = some e ∧
      a.documentation = .ok (DocsDocument.ofValue? (Term.reading (e.docs.toValue moduledoc))) := by
  obtain ⟨base, _, hbuild, h⟩ := bind_apply_eq_ok.mp h
  obtain ⟨hbase, rfl⟩ := ofFailure_eq_ok hbuild
  rw [if_pos hdocs] at h
  obtain ⟨e, _, hentry, h⟩ := bind_apply_eq_ok.mp h
  obtain ⟨he, rfl⟩ := entry_eq_ok hentry
  obtain ⟨attributes, _, -, h⟩ := bind_apply_eq_ok.mp h
  obtain ⟨hinject, -⟩ := ofFailure_eq_ok h
  exact ⟨e, _, he, Artifact.documentation_of_inject hinject
    (Assembly.docs_not_mem_ids_of_build hbase)⟩

/-- **The documentation that an artifact keeps of declarations** is that of the writes before it
was built. -/
theorem documentation_of_compile {fired : FireWrites} (hfire : g.FiresListed fired)
    {evaluate : EvaluateBody} {bodyWrites : BodyWrites}
    (hevaluate : ∀ env (scope : ModuleScope),
      Lists scope.ticket (evaluate env scope) (bodyWrites env scope))
    (hdocs : g.host.options.docs = true) {name : String} {env : CompileEnv} {c : CompiledModule}
    {w w' : World} (h : g.compile name env evaluate w = (.ok c, w')) :
    ∃ d, c.artifact.documentation = .ok (some d) ∧
      d.callbackDocs = DocEntry.kept
        ((g.compileWrites fired name env evaluate bodyWrites w).filterMap
          AttributeWrite.callbackDoc?) ∧
      d.typeDocs = DocEntry.kept
        ((g.compileWrites fired name env evaluate bodyWrites w).filterMap
          AttributeWrite.typeDoc?) := by
  obtain ⟨o, env', m, -, w₁, -, -, -, -, -, hmade, hbuild, -⟩ := (handsOver_of_compile h).stages
  obtain ⟨o', v, hopen, hmade⟩ := bind_apply_eq_ok.mp hmade
  obtain ⟨_, v₁, hnotify, hmade⟩ := bind_apply_eq_ok.mp hmade
  obtain ⟨made, _, hmake, hmade⟩ := bind_apply_eq_ok.mp hmade
  cases hmade
  have hwrites : g.compileWrites fired name env evaluate bodyWrites w
      = g.makeWrites fired o evaluate bodyWrites v₁ := by
    simp only [compileWrites, after, hopen, hnotify]
  rw [hwrites]
  have hregistry : v₁.registry = v.registry := by
    rw [← registry_notify g.host _ _ _ _ v, hnotify]
  have he : v₁.registry.find? o.scope.ticket = some (g.newEntry name env w) := by
    rw [hregistry]
    exact newEntry_of_openModule hopen
  -- the module has no documentation when it is opened
  have hempty : (g.newEntry name env w).docs = .empty := rfl
  have hlists := lists_make (o := o) hfire hevaluate v₁
  have hreturned : (g.make o evaluate v₁).1 ≠ .error .exhausted := by
    rw [hmake]
    intro hstop
    cases hstop
  obtain ⟨e', he', htakes⟩ := hlists hreturned _ he
  rw [hmake] at he'
  obtain ⟨e'', moduledoc, he'', hread⟩ := documentation_of_build hbuild hdocs
  obtain rfl : e' = e'' := Option.some.inj (he'.symm.trans he'')
  rw [DocsDocument.ofValue?_reading] at hread
  refine ⟨_, hread, ?_, ?_⟩
  · rw [htakes.callbacks, hempty]
    rfl
  · rw [htakes.types, hempty]
    rfl

end Engine
end ModuleBuild
