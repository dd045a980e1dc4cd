import ModuleBuild.Proofs.Compile.Handing

/-! # The stack of compilations

The handings of a compilation are those of its opening, of the evaluation of its body and of its
hooks (`Engine.compileHandings`), and so on for the modules nested in it.  If code and the hooks
of other modules keep to the stack that they run on, so does a compilation (`along_compile`): it
puts its module on the stack, and takes it off again however it ends.
-/
namespace ModuleBuild

open Run

namespace Engine

variable {g : Engine} {scope : ModuleScope} {host : Host} {stack : List (String × Ticket)}

/-! ## What is handed over -/

/-- What is handed over while the hooks of other modules run. -/
abbrev FireHandings : Type :=
  HookPhase → HookTarget → HookSubject → CompileEnv → ModuleScope → World → List Handing

/-- What is handed over while a body is evaluated. -/
abbrev BodyHandings : Type := CompileEnv → ModuleScope → World → List Handing

/-- What is handed over in a call; the compiler's own hooks hand over nothing. -/
def callHandings (fired : FireHandings) (phase : HookPhase) (hook : Value) (subject : HookSubject)
    (env : CompileEnv) (scope : ModuleScope) : World → List Handing :=
  match HookTarget.ofValue? phase hook with
  | none => fun _ => []
  | some target =>
    if target.module = compilerHookModule then fun _ => []
    else fired phase target subject env scope

/-- What is handed over to a registered hook, and while it runs. -/
def hookHandings (fired : FireHandings) (phase : HookPhase) (subject : HookSubject)
    (scope : ModuleScope) (env : CompileEnv) (hook : Value) (w : World) : List Handing :=
  ⟨.hook phase, scope.module, env.compiling, w⟩ ::
    (Run.record (.fired phase scope.module hook env)).after
      (fun _ => callHandings fired phase hook subject env scope) w

/-- What is handed over to hooks in turn, each called in the same context. -/
def eachHandings (g : Engine) (fired : FireHandings) (phase : HookPhase) (subject : HookSubject)
    (scope : ModuleScope) (env : CompileEnv) : List Value → World → List Handing
  | [], _ => []
  | hook :: rest, w => hookHandings fired phase subject scope env hook w ++
    (g.runHook phase subject scope env hook).after
      (fun _ => g.eachHandings fired phase subject scope env rest) w

/-- What is handed over to hooks in turn, each called in the context that the one before it
left. -/
def throughHandings (g : Engine) (fired : FireHandings) (phase : HookPhase) (subject : HookSubject)
    (scope : ModuleScope) : CompileEnv → List Value → World → List Handing
  | _, [], _ => []
  | env, hook :: rest, w => hookHandings fired phase subject scope env hook w ++
    (g.runHook phase subject scope env hook).after
      (fun env => g.throughHandings fired phase subject scope env rest) w

/-- What is handed over to the hooks for a new definition. -/
def onDefinitionHandings (g : Engine) (fired : FireHandings) (scope : ModuleScope)
    (env : CompileEnv) (d : Definition) : World → List Handing :=
  (Run.attributes scope).after fun t =>
    g.eachHandings fired .onDefinition (.definition d) scope env
      (t.readAll HookPhase.onDefinition.key)

/-- What is handed over to the hooks before or after compilation. -/
def registeredHandings (g : Engine) (fired : FireHandings) (phase : HookPhase)
    (subject : HookSubject) (scope : ModuleScope) (env : CompileEnv) : World → List Handing :=
  (Run.attributes scope).after fun t =>
    g.throughHandings fired phase subject scope env (t.readAll phase.key).reverse

/-- What is handed over after a definition: to its hooks, if it is new. -/
def defineHandings (g : Engine) (fired : FireHandings) (scope : ModuleScope) (n : NewDefinition)
    (w : World) : List Handing :=
  match n.accept scope w with
  | .ok (d, true, w₁) => g.onDefinitionHandings fired scope { scope.env with
      line := (n.definition scope).location.line, function := some n.pair } d w₁
  | _ => []

/-- What is handed over until the artifact of an opened module is built: to the evaluator of its
body, while the body is evaluated, and to the hooks before compilation. -/
def makeHandings (g : Engine) (fired : FireHandings) (o : Opening) (evaluate : EvaluateBody)
    (bodyHandings : BodyHandings) (w : World) : List Handing :=
  ⟨.evaluator, o.scope.module, o.scope.env.compiling, w⟩ :: (bodyHandings o.scope.env o.scope w ++
    (evaluate o.scope.env o.scope).after (fun (_, env) => (g.advance o .beforeHooks).after fun _ =>
      g.registeredHandings fired .beforeCompile .none o.scope env) w)

/-- What is handed over in the life of an opened module: to the observer of its opening, until its
artifact is built, and to the hooks after compilation. -/
def lifeHandings (g : Engine) (fired : FireHandings) (o : Opening) (evaluate : EvaluateBody)
    (bodyHandings : BodyHandings) (w : World) : List Handing :=
  ⟨.observer, o.scope.module, o.scope.env.compiling, w⟩ ::
    (Run.notify g.host "onModuleOpen" o.scope.module o.location
      (.opened o.scope.module o.location o.scope.env.compiling)).after (fun _ w =>
        g.makeHandings fired o evaluate bodyHandings w ++ (g.make o evaluate).after
          (fun (_, env, _, a) => (g.advance o .afterHooks).after fun _ =>
            g.registeredHandings fired .afterCompile (.artifact a) o.scope env) w) w

/-- What is handed over in a compilation, if it opens its module. -/
def compileHandings (g : Engine) (fired : FireHandings) (name : String) (env : CompileEnv)
    (evaluate : EvaluateBody) (bodyHandings : BodyHandings) : World → List Handing :=
  (g.openModule name env).after fun o => g.lifeHandings fired o evaluate bodyHandings

/-! ## Hooks and definitions -/

/-- The context names the modules of a stack. -/
def NamesAll (stack : List (String × Ticket)) (env : CompileEnv) : Prop :=
  env.compiling = stack.map Prod.fst

/-- The hooks of other modules keep to the stack that they are called on, and so do the contexts
that they leave. -/
def FiresHanding (g : Engine) (host : Host) (fired : FireHandings) : Prop :=
  ∀ stack (scope : ModuleScope), scope.Tops stack → ∀ phase target subject env, NamesAll stack env →
    Along (World.Hands host stack) (NamesAll stack) (g.fire phase target subject env scope)
      (fired phase target subject env scope)

section Calls

variable {fired : FireHandings} (hfire : g.FiresHanding host fired) (htops : scope.Tops stack)
include hfire htops

theorem along_callHook (phase : HookPhase) (hook : Value) (subject : HookSubject)
    {env : CompileEnv} (henv : NamesAll stack env) :
    Along (World.Hands host stack) (NamesAll stack) (g.callHook phase hook subject env scope)
      (callHandings fired phase hook subject env scope) := by
  have hR := World.graded_hands host stack
  unfold callHook callHandings
  cases HookTarget.ofValue? phase hook with
  | none => exact along_fail hR _
  | some target =>
    by_cases hbuiltin : target.module = compilerHookModule
    · simp only [hbuiltin, if_true]
      have hrun : Within World.Calm (runBuiltin scope target.function subject) :=
        related_runBuiltin (entryLaw_calm scope) _ _
      exact (along_of_calm hrun).bind hR fun _ _ => along_pure hR henv
    · simp only [hbuiltin, if_false]
      exact hfire stack scope htops _ _ _ _ henv

/-- **A hook is handed the list of the modules under way**, and leaves a context with the same
list. -/
theorem along_runHook (phase : HookPhase) (subject : HookSubject) {env : CompileEnv}
    (henv : NamesAll stack env) (hook : Value) :
    Along (World.Hands host stack) (NamesAll stack) (g.runHook phase subject scope env hook)
      (hookHandings fired phase subject scope env hook) := by
  have hR := World.graded_hands host stack
  have hrecord : Along (World.Hands host stack) (fun _ => True)
      (Run.record (.fired phase scope.module hook env))
      fun w => [⟨.hook phase, scope.module, env.compiling, w⟩] := by
    exact fun w _ => ⟨World.hands_told (fun hw => htops.faithful hw _ henv) ⟨_, rfl, rfl⟩,
      fun _ _ => trivial⟩
  refine along_bind hR hrecord fun _ _ => ?_
  refine (along_attempt (along_callHook hfire htops phase hook subject henv)).bind hR
    fun outcome houtcome => ?_
  cases outcome with
  | ok env' => exact along_pure hR (houtcome env' rfl)
  | error f => exact along_fail hR _

theorem along_runEach (phase : HookPhase) (subject : HookSubject) {env : CompileEnv}
    (henv : NamesAll stack env) (hooks : List Value) :
    Along (World.Hands host stack) (fun _ => True) (g.runEach phase subject scope env hooks)
      (g.eachHandings fired phase subject scope env hooks) := by
  have hR := World.graded_hands host stack
  induction hooks with
  | nil => exact along_pure hR trivial
  | cons hook rest ih =>
    exact along_bind hR (along_runHook hfire htops phase subject henv hook) fun _ _ => ih

theorem along_runThrough (phase : HookPhase) (subject : HookSubject) {env : CompileEnv}
    (henv : NamesAll stack env) (hooks : List Value) :
    Along (World.Hands host stack) (NamesAll stack) (g.runThrough phase subject scope env hooks)
      (g.throughHandings fired phase subject scope env hooks) := by
  have hR := World.graded_hands host stack
  induction hooks generalizing env with
  | nil => exact along_pure hR henv
  | cons hook rest ih =>
    exact along_bind hR (along_runHook hfire htops phase subject henv hook) fun _ => ih

theorem along_runOnDefinition {env : CompileEnv} (henv : NamesAll stack env) (d : Definition) :
    Along (World.Hands host stack) (fun _ => True) (g.runOnDefinition scope env d)
      (g.onDefinitionHandings fired scope env d) :=
  along_bind_of_within (World.graded_hands host stack)
    (within_hands_of_calm (congruence_calm.attributes scope)) fun _ =>
      along_runEach hfire htops _ _ henv _

theorem along_runBeforeCompile {env : CompileEnv} (henv : NamesAll stack env) :
    Along (World.Hands host stack) (NamesAll stack) (g.runBeforeCompile scope env)
      (g.registeredHandings fired .beforeCompile .none scope env) :=
  along_bind_of_within (World.graded_hands host stack)
    (within_hands_of_calm (congruence_calm.attributes scope)) fun _ =>
      along_runThrough hfire htops _ _ henv _

theorem along_runAfterCompile {env : CompileEnv} (henv : NamesAll stack env) (a : Artifact) :
    Along (World.Hands host stack) (fun _ => True) (g.runAfterCompile scope env a)
      (g.registeredHandings fired .afterCompile (.artifact a) scope env) := by
  have hR := World.graded_hands host stack
  refine along_bind_of_within hR (within_hands_of_calm (congruence_calm.attributes scope))
    fun t => ?_
  exact (along_runThrough hfire htops _ _ henv _).bind hR fun _ _ => along_pure hR trivial

theorem along_define (n : NewDefinition) :
    Along (World.Hands host stack) (fun _ => True) (g.define scope n)
      (g.defineHandings fired scope n) := by
  have hR := World.graded_hands host stack
  intro w
  rw [define_eq]
  unfold defineHandings
  cases haccept : n.accept scope w with
  | error f => exact fun _ => ⟨hR.refl w, fun _ _ => trivial⟩
  | ok answer =>
    obtain ⟨d, isNew, w₁⟩ := answer
    obtain ⟨e, ds, -, -, -, rfl⟩ := NewDefinition.accept_eq_ok haccept
    have haccepted : World.Hands host stack [] w { w with
        registry := w.registry.update scope.ticket fun s => { s with definitions := ds } } :=
      World.Calm.hands ⟨rfl, Registry.isUnderWay_update_of_phase fun _ => rfl, .refl w⟩
    cases isNew with
    | false => exact fun _ => ⟨haccepted, fun _ _ => trivial⟩
    | true =>
      have henv : NamesAll stack { scope.env with
          line := (n.definition scope).location.line, function := some n.pair } := htops.compiling
      have hannounce : Along (World.Hands host stack) (fun _ => True) (g.announce scope n d true)
          (g.onDefinitionHandings fired scope _ d) :=
        (along_runOnDefinition hfire htops henv d).bind hR fun _ _ => along_pure hR trivial
      exact fun hne => ⟨hR.append haccepted (hannounce _ hne).1, fun _ _ => trivial⟩

end Calls
/-! ## Compilations -/

/-- A body keeps to the stack that it is evaluated on, and so do the contexts that it leaves. -/
def EvaluatesHanding (host : Host) (evaluate : EvaluateBody) (bodyHandings : BodyHandings) :
    Prop :=
  ∀ stack (scope : ModuleScope), scope.Tops stack → ∀ env, NamesAll stack env →
    Along (World.Hands host stack) (fun answer => NamesAll stack answer.2) (evaluate env scope)
      (bodyHandings env scope)

/-- Finishing the last of the modules under way takes it off the stack, and tells of nothing but
what its life has told of. -/
theorem stands_finish {o : Opening} {evaluate : EvaluateBody} {w : World} {hs : List Handing}
    (hstands : World.Stands g.host (stack ++ [(o.scope.module, o.scope.ticket)])
      (g.live o evaluate w).2)
    (htells : w.Tells hs (g.live o evaluate w).2)
    (hne : (g.finish o evaluate w).1 ≠ .error .exhausted) :
    World.Stands g.host stack (g.finish o evaluate w).2 ∧
      w.Tells hs (g.finish o evaluate w).2 := by
  let before (w' : World) : Prop :=
    w'.Stands g.host (stack ++ [(o.scope.module, o.scope.ticket)]) ∧ w.Tells hs w'
  let after (w' : World) : Prop := w'.Stands g.host stack ∧ w.Tells hs w'
  have happend {w₁ w₂ : World} (h : w.Tells hs w₁) (h' : w₁.Tells [] w₂) : w.Tells hs w₂ :=
    List.append_nil hs ▸ h.append h'
  have hlive : Leads (· = w) (g.live o evaluate) (fun _ => before) fun _ => before :=
    leads_of_world fun _ h => by
      subst h
      exact ⟨hstands, htells⟩
  have hconclude (outcome : Except Failure CompiledModule) :
      Leads before (g.conclude o outcome) (fun _ => after) fun _ => after := by
    refine leads_conclude ?_ (fun fulfilled => leads_of_world ?_) outcome
    · exact fun w' ⟨hw, h⟩ f d =>
        ⟨hw.log (List.prefix_append _ _), happend h (.nothing rfl _ d)⟩
    · intro w' ⟨hw, h⟩
      obtain ⟨hclosed, htold⟩ := stands_closeModule hw fulfilled
      exact ⟨hclosed, happend h htold⟩
  have hfinish : Leads (· = w) (g.finish o evaluate) (fun _ => after) fun _ => after := by
    rw [finish_eq]
    refine leads_bind (leads_attempt hlive) fun outcome => ?_
    cases outcome with
    | ok c => exact hconclude (.ok c)
    | error f => exact hconclude (.error f)
  exact hfinish.of_settles rfl hne

section Compilations

variable {o : Opening} {fired : FireHandings} {evaluate : EvaluateBody}
  {bodyHandings : BodyHandings} (hfire : g.FiresHanding host fired)
  (hevaluate : EvaluatesHanding host evaluate bodyHandings)
include hfire hevaluate

theorem along_make (htops : o.scope.Tops stack) :
    Along (World.Hands host stack) (fun answer => NamesAll stack answer.2.1) (g.make o evaluate)
      (g.makeHandings fired o evaluate bodyHandings) := by
  have hR := World.graded_hands host stack
  have hadvance (target : Phase) (h : target ≠ .closed) :
      Along (World.Hands host stack) (fun _ => True) (g.advance o target) fun _ => [] :=
    along_of_calm (within_calm_advance h)
  have hevaluator (w : World) : World.Hands host stack
      [⟨.evaluator, o.scope.module, o.scope.env.compiling, w⟩] w w :=
    World.hands_told (fun hw => htops.faithful hw _ htops.compiling)
      ⟨[], (List.append_nil _).symm, rfl⟩
  refine Along.cons hR ?_ hevaluator
  refine along_bind hR (hevaluate stack o.scope htops _ htops.compiling) fun ⟨value, env⟩ henv => ?_
  refine along_bind_of_within hR (within_hands_of_calm (within_calm_advance nofun)) fun _ => ?_
  refine (along_runBeforeCompile hfire htops henv).bind hR fun env henv => ?_
  refine (hadvance .assembling nofun).bind hR fun _ _ => ?_
  refine (along_of_calm (related_assemble congruence_calm (entryLaw_calm _).recordLocal)).bind hR
    fun m _ => ?_
  have hwarn (d : Diagnostic) : within World.Calm (Run.warn g.host o.scope.module d)
      (Run.warn g.host o.scope.module d) := within_calm_warn _ _ d
  refine (along_of_calm (congruence_calm.list_forM hwarn m.warnings)).bind hR fun _ _ => ?_
  refine (hadvance .building nofun).bind hR fun _ _ => ?_
  exact (along_of_calm (related_build congruence_calm m)).bind hR fun a _ => along_pure hR henv

/-- **In the life of an opened module** the list of the modules under way is handed over. -/
theorem along_live (htops : o.scope.Tops stack) :
    Along (World.Hands host stack) (fun _ => True) (g.live o evaluate)
      (g.lifeHandings fired o evaluate bodyHandings) := by
  have hR := World.graded_hands host stack
  have hopened : Along (World.Hands host stack) (fun _ => True)
      (Run.notify g.host "onModuleOpen" o.scope.module o.location
        (.opened o.scope.module o.location o.scope.env.compiling))
      fun w => [⟨.observer, o.scope.module, o.scope.env.compiling, w⟩] := by
    intro w _
    rw [world_notify]
    exact ⟨World.hands_told (fun hw => htops.faithful hw _ htops.compiling) (.notified rfl _ _),
      fun _ _ => trivial⟩
  rw [live, compileOpened_eq, prepare_eq]
  refine along_bind hR hopened fun _ _ => ?_
  have hprepare : Along (World.Hands host stack) (fun _ => True) (do
      let (value, env, m, a) ← g.make o evaluate
      g.advance o .afterHooks
      g.runAfterCompile o.scope env a
      pure (value, m, a))
      fun w => g.makeHandings fired o evaluate bodyHandings w ++ (g.make o evaluate).after
          (fun (_, env, _, a) => (g.advance o .afterHooks).after fun _ =>
            g.registeredHandings fired .afterCompile (.artifact a) o.scope env) w := by
    refine along_bind hR (along_make hfire hevaluate htops) fun ⟨value, env, m, a⟩ henv => ?_
    refine along_bind_of_within hR (within_hands_of_calm (within_calm_advance nofun)) fun _ => ?_
    exact (along_runAfterCompile hfire htops henv a).bind hR fun _ _ => along_pure hR trivial
  exact hprepare.bind hR fun ⟨value, m, a⟩ _ =>
    along_of_calm (related_handOver (handoverLaw_calm g o) value m a)

/-- **A compilation keeps to the stack that it runs on**: its own module is put on it and taken
off again, however the compilation ends. -/
theorem along_compile (hhost : g.host = host) (name : String) {env : CompileEnv}
    (henv : NamesAll stack env) :
    Along (World.Hands host stack) (fun _ => True) (g.compile name env evaluate)
      (g.compileHandings fired name env evaluate bodyHandings) := by
  subst hhost
  refine fun w hne => ⟨fun hw => ?_, fun _ _ => trivial⟩
  have hwarned (ds : List Diagnostic) (registry : Registry) : World.Tells [] w { w with
      registry, log := w.log ++ ds.map (.warned name) } :=
    ⟨_, rfl, by simp [List.filterMap_eq_nil_iff, Event.handed?]⟩
  unfold compile compileHandings after at *
  rw [bind_apply] at hne ⊢
  rcases openModule_cases g name env w with ⟨f, ds, hopen, -⟩ | ⟨hname, hopen⟩
  · rw [hopen]
    exact ⟨fun _ h => (List.not_mem_nil h).elim, hw.log (List.prefix_append _ _), hwarned ds _⟩
  · simp only [hopen] at hne ⊢
    let o := g.opening name env w
    let w₁ : World := { w with
      registry := w.registry.add (g.newEntry name env w)
      log := w.log ++ o.warnings.map (.warned name) }
    have hw₁ : w₁.Stands g.host (stack ++ [(name, o.scope.ticket)]) :=
      stands_opening hw hname _ (List.prefix_append _ _)
    have hlives : (g.live o evaluate w₁).1 ≠ .error .exhausted := fun h => by
      rw [finish_of_exhausted (Prod.ext h rfl)] at hne
      exact hne rfl
    obtain ⟨hfaithful, hw₂, htells⟩ :=
      (along_live hfire hevaluate (tops_opening henv) w₁ hlives).1 hw₁
    obtain ⟨hw₃, htold⟩ := stands_finish hw₂ htells hne
    exact ⟨hfaithful, hw₃, (hwarned o.warnings _).append htold⟩

end Compilations
end Engine
end ModuleBuild
