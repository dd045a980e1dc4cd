import ModuleBuild.Proofs.Compile.Chronicle

/-! # Passing the hooks of a module

The life of an opened module passes its hooks twice: those before compilation once its body has
been evaluated (`Engine.reachBefore`), and those after it once its artifact has been built
(`Engine.reachAfter`).  A pass calls the hooks that are registered when it starts, the last
registered first, each in the context that the one before it left (`Engine.Passes`), and no other
hooks are called for the phase in the whole life (`Engine.PassesHooks`).

Through both passes the module keeps its chronicle (`life_of_opened`).  Its closing calls no
hooks, so that the modules around it are left to theirs (`bypasses_compile`).
-/
namespace ModuleBuild

open Run

namespace Engine

variable {g : Engine} {fired : FireDefines} {scope : ModuleScope} {o : Opening}

/-! ## One pass -/

/-- Call the hooks that are registered for a phase, the last registered first. -/
def runPass (g : Engine) (phase : HookPhase) (subject : HookSubject) (scope : ModuleScope)
    (env : CompileEnv) : Run CompileEnv := do
  let hooks := (← Run.attributes scope).readAll phase.key
  g.runThrough phase subject scope env hooks.reverse

/-- The hooks that are registered for a phase in a world are called in turn from there, the last
registered first and each in the context that the one before it left. -/
def Passes (g : Engine) (phase : HookPhase) (subject : HookSubject) (scope : ModuleScope)
    (env : CompileEnv) (w : World) : List HookCall → Option CompileEnv → World → Prop :=
  g.InTurn phase subject scope threaded env (w.registered scope.ticket phase).reverse w

/-- The calls that add definitions in a pass. -/
def passDefines (g : Engine) (fired : FireDefines) (phase : HookPhase) (subject : HookSubject)
    (scope : ModuleScope) (env : CompileEnv) (w : World) : List DefineCall :=
  g.turnDefines fired phase subject scope threaded env
    (w.registered scope.ticket phase).reverse w

theorem passes_runPass (phase : HookPhase) (subject : HookSubject) (env : CompileEnv) {w : World}
    (hs : scope.StandsIn w) (hne : (g.runPass phase subject scope env w).1 ≠ .error .exhausted) :
    ∃ calls last, g.Passes phase subject scope env w calls last
        (g.runPass phase subject scope env w).2 ∧
      ∀ left, last = some left ↔ (g.runPass phase subject scope env w).1 = .ok left := by
  obtain ⟨p, hopen⟩ := hs.live
  obtain ⟨a, hattributes, hhooks⟩ := hopen.attributes (s := scope) phase
  have hrun : g.runPass phase subject scope env w = g.runThrough phase subject scope env
      (w.registered scope.ticket phase).reverse w := by
    unfold runPass
    rw [bind_apply, hattributes, ← hhooks]
  rw [hrun] at hne ⊢
  exact inTurn_runThrough g phase subject scope env _ w hne

/-- A run that passes the hooks for a phase, with the subject and in the context that its
beginning answers with. -/
def passing {α β : Type} (g : Engine) (scope : ModuleScope) (phase : HookPhase) (x : Run α)
    (subject : α → HookSubject) (env : α → CompileEnv) (k : α → CompileEnv → Run β) : Run β := do
  let a ← x
  let left ← g.runPass phase (subject a) scope (env a)
  k a left

/-- A run that begins with `x` and then passes the hooks for a phase: of all its calls of hooks
those about the topic of the phase are the calls of the pass, and it fails where the pass fails.
There are none if it does not get so far. -/
structure PassesAfter {α β : Type} (g : Engine) (scope : ModuleScope) (phase : HookPhase)
    (topic : HookTopic) (x : Run α) (subject : α → HookSubject) (env : α → CompileEnv)
    (r : Run β) (w : World) : Prop where
  called : ∀ a w₁, x w = (.ok a, w₁) → ∃ last w₂,
    g.Passes phase (subject a) scope (env a) w₁ (w.calls scope.module topic (r w).2) last w₂ ∧
    (∀ left, last = some left ↔ (g.runPass phase (subject a) scope (env a) w₁).1 = .ok left) ∧
    (last = none → (∃ f, (r w).1 = .error (.failed f)) ∧ (r w).2 = w₂)
  /-- Registered hooks are called in the reverse order of their registration, each once if none
  fails. -/
  hooks : ∀ a w₁, x w = (.ok a, w₁) →
    (w.calls scope.module topic (r w).2).map HookCall.hook
        <+: (w₁.registered scope.ticket phase).reverse ∧
      ∀ left, (g.runPass phase (subject a) scope (env a) w₁).1 = .ok left →
        (w.calls scope.module topic (r w).2).map HookCall.hook
          = (w₁.registered scope.ticket phase).reverse
  uncalled : (∀ a, (x w).1 ≠ .ok a) → w.calls scope.module topic (r w).2 = []

theorem PassesAfter.of_called {α β : Type} {phase : HookPhase} {topic : HookTopic} {x : Run α}
    {subject : α → HookSubject} {env : α → CompileEnv} {r : Run β} {w : World}
    (called : ∀ a w₁, x w = (.ok a, w₁) → ∃ last w₂,
      g.Passes phase (subject a) scope (env a) w₁ (w.calls scope.module topic (r w).2) last w₂ ∧
      (∀ left, last = some left ↔ (g.runPass phase (subject a) scope (env a) w₁).1 = .ok left) ∧
      (last = none → (∃ f, (r w).1 = .error (.failed f)) ∧ (r w).2 = w₂))
    (uncalled : (∀ a, (x w).1 ≠ .ok a) → w.calls scope.module topic (r w).2 = []) :
    g.PassesAfter scope phase topic x subject env r w where
  called := called
  hooks a w₁ ha := by
    obtain ⟨last, w₂, hpasses, hlast, -⟩ := called a w₁ ha
    refine ⟨hpasses.hooks_prefix, fun left hleft => ?_⟩
    obtain rfl := (hlast left).mpr hleft
    exact hpasses.hooks_eq
  uncalled := uncalled

section Passing

variable (hfire : g.FiresKeeping fired) {phase : HookPhase} {topic : HookTopic}
  (htopic : ∀ env, phase.topic env = topic) (hpass : ∀ p, topic ≠ .definition p)
include hfire htopic hpass

/-- A pass, and what goes on from it without calling hooks. -/
theorem chronicle_runPass_bind {β : Type} (subject : HookSubject) (env : CompileEnv)
    {k : CompileEnv → Run β} (hk : ∀ left, Within (World.Quiet scope.ticket) (k left)) {w : World}
    (hs : scope.StandsIn w)
    (hne : ((g.runPass phase subject scope env >>= k) w).1 ≠ .error .exhausted) :
    scope.Chronicle (· = topic) (g.passDefines fired phase subject scope env w) w
        ((g.runPass phase subject scope env >>= k) w).2 ∧
      ∃ last w₁, g.Passes phase subject scope env w
          (w.calls scope.module topic ((g.runPass phase subject scope env >>= k) w).2) last w₁ ∧
        (∀ left, last = some left ↔ (g.runPass phase subject scope env w).1 = .ok left) ∧
        (last = none →
          (∃ f, ((g.runPass phase subject scope env >>= k) w).1 = .error (.failed f)) ∧
          ((g.runPass phase subject scope env >>= k) w).2 = w₁) := by
  rw [bind_apply] at hne ⊢
  have hpasses := passes_runPass (g := g) phase subject env hs
  rcases hrun : g.runPass phase subject scope env w with ⟨(f | _) | left, w₁⟩
  case error.exhausted =>
    rw [hrun] at hne
    exact (hne rfl).elim
  all_goals
    rw [hrun] at hne hpasses
    obtain ⟨calls, last, hturn, hlast⟩ := hpasses nofun
    obtain ⟨hchronicle, hcalls⟩ := InTurn.chronicle hfire hturn
      (fun _ _ => by rw [htopic, htopic]) hs fun p hp => (hpass _ (hp.trans (htopic _)).symm).elim
    rw [htopic] at hchronicle hcalls
    rw [← hcalls] at hturn
  case error.failed =>
    exact ⟨hchronicle, last, w₁, hturn, hlast, fun _ => ⟨⟨f, rfl⟩, rfl⟩⟩
  case ok =>
    have hquiet := hk left w₁ hne
    have hrest := ModuleScope.chronicle_of_quiet (· = topic) hchronicle.stands hquiet
    have hall := hchronicle.append hrest fun p hp => (hpass _ hp.symm).elim
    rw [List.append_nil] at hall
    refine ⟨hall, last, w₁, ?_, hlast, fun hnone => ?_⟩
    · rw [World.calls_trans hchronicle.grows hrest.grows, hquiet.calm.silent.calls, List.append_nil]
      exact hturn
    · rw [(hlast left).mpr rfl] at hnone
      cases hnone

/-- **A run that passes hooks** keeps the chronicle of the module as its beginning does, and calls
about the topic of the pass are made in the pass only. -/
theorem chronicle_passing {α β : Type} {own : HookTopic → Prop} (hother : ¬ own topic)
    (hown : ∀ p, ¬ own (.definition p)) {x : Run α} {subject : α → HookSubject}
    {env : α → CompileEnv} {k : α → CompileEnv → Run β} {cs : List DefineCall} {w : World}
    (hx : (x w).1 ≠ .error .exhausted → scope.Chronicle own cs w (x w).2)
    (hk : ∀ a left, Within (World.Quiet scope.ticket) (k a left))
    (hne : (g.passing scope phase x subject env k w).1 ≠ .error .exhausted) :
    scope.Chronicle (fun t => own t ∨ t = topic)
        (cs ++ x.after (fun a => g.passDefines fired phase (subject a) scope (env a)) w) w
        (g.passing scope phase x subject env k w).2 ∧
      g.PassesAfter scope phase topic x subject env (g.passing scope phase x subject env k) w ∧
      ∀ t, (∀ p, t ≠ .definition p) → t ≠ topic →
        w.calls scope.module t (g.passing scope phase x subject env k w).2
          = w.calls scope.module t (x w).2 := by
  rcases hxw : x w with ⟨s | a, w₁⟩
  · have hrun : g.passing scope phase x subject env k w = (.error s, w₁) := by
      rw [passing, bind_apply, hxw]
    rw [hxw] at hx
    have hfirst := hx fun h => hne (by rw [hrun]; cases h; rfl)
    rw [hrun, after, hxw, List.append_nil]
    refine ⟨hfirst.mono fun _ => .inl, .of_called (fun a w' ha => ?_) fun _ => ?_,
      fun _ _ _ => rfl⟩
    · rw [hxw] at ha
      cases ha
    · rw [hrun]
      exact hfirst.others topic hother fun p _ => hpass _
  · have hrun : g.passing scope phase x subject env k w
        = (g.runPass phase (subject a) scope (env a) >>= k a) w₁ := by
      rw [passing, bind_apply, hxw]
    rw [hxw] at hx
    have hfirst := hx (by simp)
    rw [hrun] at hne
    obtain ⟨hsecond, last, w₂, hpasses, hlast, hfails⟩ := chronicle_runPass_bind hfire htopic hpass
      (subject a) (env a) (hk a) hfirst.stands hne
    have hcalls (t : HookTopic) :
        w.calls scope.module t ((g.runPass phase (subject a) scope (env a) >>= k a) w₁).2
          = w.calls scope.module t w₁
            ++ w₁.calls scope.module t ((g.runPass phase (subject a) scope (env a) >>= k a) w₁).2 :=
      World.calls_trans hfirst.grows hsecond.grows
    rw [← hrun] at hsecond hpasses hfails hcalls
    refine ⟨?_, .of_called (fun a' w' ha => ?_) fun h => ?_, fun t ht hne => ?_⟩
    · rw [after, hxw]
      refine (hfirst.mono fun _ => .inl).append (hsecond.mono fun _ => .inr) fun p hp => ?_
      exact (hp.elim (hown _) fun h => hpass _ h.symm).elim
    · rw [hxw] at ha
      cases ha
      rw [hcalls, hfirst.others topic hother fun p _ => hpass _]
      exact ⟨last, w₂, hpasses, hlast, hfails⟩
    · rw [hxw] at h
      exact (h a rfl).elim
    · rw [hcalls, hsecond.others t hne fun p _ => ht _, List.append_nil]

end Passing

/-! ## The life of an opened module -/

/-- The life of an opened module up to its hooks before compilation. -/
def reachBefore (g : Engine) (o : Opening) (evaluate : EvaluateBody) :
    Run (FormResult × CompileEnv) := do
  Run.notify g.host "onModuleOpen" o.scope.module o.location
    (.opened o.scope.module o.location o.scope.env.compiling)
  let (value, env) ← evaluate o.scope.env o.scope
  g.advance o .beforeHooks
  pure (value, env)

/-- The life of an opened module between its passes. -/
def makeArtifact (g : Engine) (o : Opening) : Run (Assembly × Artifact) := do
  g.advance o .assembling
  let m ← g.assemble o
  m.warnings.forM (Run.warn g.host o.scope.module)
  g.advance o .building
  let a ← g.build o m
  g.advance o .afterHooks
  pure (m, a)

/-- The life of an opened module up to its hooks after compilation. -/
def reachAfter (g : Engine) (o : Opening) (evaluate : EvaluateBody) :
    Run (FormResult × CompileEnv × Assembly × Artifact) := do
  let (value, env) ← g.reachBefore o evaluate
  let env ← g.runBeforeCompile o.scope env
  let (m, a) ← g.makeArtifact o
  pure (value, env, m, a)

theorem reachAfter_eq (g : Engine) (o : Opening) (evaluate : EvaluateBody) :
    g.reachAfter o evaluate = g.passing o.scope .beforeCompile (g.reachBefore o evaluate)
      (fun _ => .none) Prod.snd fun reached env =>
        g.makeArtifact o >>= fun (m, a) => pure (reached.1, env, m, a) := rfl

theorem live_eq (g : Engine) (o : Opening) (evaluate : EvaluateBody) :
    g.live o evaluate = g.passing o.scope .afterCompile (g.reachAfter o evaluate)
      (fun reached => .artifact reached.2.2.2) (fun reached => reached.2.1) fun reached _ =>
        g.handOver o reached.1 reached.2.2.1 reached.2.2.2 := by
  simp only [live, compileOpened, reachAfter, reachBefore, makeArtifact, passing, runPass,
    runBeforeCompile, runAfterCompile, handOver, bind_assoc, pure_bind]

/-- How the hooks before and after compilation are called in the life of an opened module: each in
its pass, and the pass after compilation starts in the context that the one before it left. -/
structure PassesHooks (g : Engine) (o : Opening) (evaluate : EvaluateBody) (w : World) : Prop where
  before : g.PassesAfter o.scope .beforeCompile .before (g.reachBefore o evaluate)
    (fun _ => .none) Prod.snd (g.live o evaluate) w
  after : g.PassesAfter o.scope .afterCompile .after (g.reachAfter o evaluate)
    (fun reached => .artifact reached.2.2.2) (fun reached => reached.2.1) (g.live o evaluate) w
  handed : ∀ value env w₁ answer w₂, g.reachBefore o evaluate w = (.ok (value, env), w₁) →
    g.reachAfter o evaluate w = (.ok answer, w₂) →
      (g.runBeforeCompile o.scope env w₁).1 = .ok answer.2.1

/-- The calls that add definitions while a body is evaluated. -/
abbrev BodyDefines : Type := CompileEnv → ModuleScope → World → List DefineCall

/-- Those in the life of an opened module: while its body is evaluated, and in its passes. -/
def lifeDefines (g : Engine) (fired : FireDefines) (o : Opening) (evaluate : EvaluateBody)
    (bodyDefines : BodyDefines) (w : World) : List DefineCall :=
  (Run.notify g.host "onModuleOpen" o.scope.module o.location
    (.opened o.scope.module o.location o.scope.env.compiling)).after
      (fun _ => bodyDefines o.scope.env o.scope) w ++
  (g.reachBefore o evaluate).after (fun reached =>
    g.passDefines fired .beforeCompile .none o.scope reached.2) w ++
  (g.reachAfter o evaluate).after (fun reached =>
    g.passDefines fired .afterCompile (.artifact reached.2.2.2) o.scope reached.2.1) w

/-- A body keeps the chronicle of the module that it is evaluated for. -/
def EvaluatesKeeping (evaluate : EvaluateBody) (bodyDefines : BodyDefines) : Prop :=
  ∀ env scope, Keeps scope (evaluate env scope) (bodyDefines env scope)

section Life

variable {evaluate : EvaluateBody} {bodyDefines : BodyDefines}

/-- Telling of the opening of a module calls no hooks. -/
theorem chronicles_notify_opened {own : HookTopic → Prop} :
    Within (o.scope.Chronicles own []) (Run.notify g.host "onModuleOpen" o.scope.module o.location
      (.opened o.scope.module o.location o.scope.env.compiling)) := by
  intro w _ hs _
  have hsilent := World.silent_notify g.host "onModuleOpen" o.scope.module o.location
    (e := .opened o.scope.module o.location o.scope.env.compiling) (fun _ _ => rfl) w
  rw [world_notify] at hsilent ⊢
  exact ModuleScope.chronicle_of_silent own hs hsilent rfl

theorem keeps_reachBefore (hevaluate : EvaluatesKeeping evaluate bodyDefines) :
    Keeps o.scope (g.reachBefore o evaluate)
      ((Run.notify g.host "onModuleOpen" o.scope.module o.location
        (.opened o.scope.module o.location o.scope.env.compiling)).after fun _ =>
          bodyDefines o.scope.env o.scope) := by
  have hR := graded_keeps o.scope
  have hadvance : Keeps o.scope (g.advance o .beforeHooks) fun _ => [] :=
    keeps_of_quiet (within_quiet_advance nofun)
  refine along_bind_of_within hR chronicles_notify_opened fun _ => ?_
  refine (hevaluate o.scope.env o.scope).bind hR fun (value, env) _ => ?_
  exact hadvance.bind hR fun _ _ => along_pure hR trivial

theorem within_quiet_makeArtifact : Within (World.Quiet o.scope.ticket) (g.makeArtifact o) := by
  have hP := congruence_quiet o.scope.ticket
  change within _ (g.makeArtifact o) (g.makeArtifact o)
  refine hP.bind (within_quiet_advance nofun) fun _ => ?_
  refine hP.bind within_quiet_assemble fun m => ?_
  refine hP.bind (hP.list_forM (within_quiet_warn _ _) m.warnings) fun _ => ?_
  refine hP.bind (within_quiet_advance nofun) fun _ => ?_
  refine hP.bind (within_quiet_build m) fun a => ?_
  exact hP.bind (within_quiet_advance nofun) fun _ => hP.pure _

/-- What goes on from a run that has passed hooks without calling more of them for the phase. -/
theorem PassesAfter.bind {α β γ : Type} {phase : HookPhase} {topic : HookTopic} {x : Run α}
    {subject : α → HookSubject} {env : α → CompileEnv} {r : Run β} {k : β → Run γ} {w : World}
    (h : g.PassesAfter scope phase topic x subject env r w)
    (hcalls : w.calls scope.module topic ((r >>= k) w).2 = w.calls scope.module topic (r w).2) :
    g.PassesAfter scope phase topic x subject env (r >>= k) w := by
  refine .of_called (fun a w₁ ha => ?_) fun ha => by rw [hcalls, h.uncalled ha]
  obtain ⟨last, w₂, hpasses, hlast, hfails⟩ := h.called a w₁ ha
  rw [hcalls]
  refine ⟨last, w₂, hpasses, hlast, fun hnone => ?_⟩
  obtain ⟨⟨f, hf⟩, hw⟩ := hfails hnone
  rw [bind_apply, show r w = (.error (.failed f), w₂) from Prod.ext hf hw]
  exact ⟨⟨f, rfl⟩, rfl⟩

/-- **The life of an opened module**: it keeps its chronicle, and passes its hooks. -/
theorem life_of_opened (hfire : g.FiresKeeping fired)
    (hevaluate : EvaluatesKeeping evaluate bodyDefines) {w : World} (hs : o.scope.StandsIn w)
    (hne : (g.live o evaluate w).1 ≠ .error .exhausted) :
    o.scope.Chronicle (fun t => t = .before ∨ t = .after)
        (g.lifeDefines fired o evaluate bodyDefines w) w (g.live o evaluate w).2 ∧
      g.PassesHooks o evaluate w := by
  have hlive := live_eq g o evaluate
  have hreached : (g.reachAfter o evaluate w).1 ≠ .error .exhausted := fun h => by
    rw [hlive, passing, bind_apply, show g.reachAfter o evaluate w
      = (.error .exhausted, (g.reachAfter o evaluate w).2) from Prod.ext h rfl] at hne
    exact hne rfl
  have hR := World.conduct_quiet o.scope.ticket
  have hmake (reached : FormResult × CompileEnv) (left : CompileEnv) :
      Within (World.Quiet o.scope.ticket)
        (g.makeArtifact o >>= fun (m, a) => pure (reached.1, left, m, a)) :=
    within_bind hR within_quiet_makeArtifact fun _ => within_pure hR _
  have hhand (reached : FormResult × CompileEnv × Assembly × Artifact) (left : CompileEnv) :
      Within (World.Quiet o.scope.ticket)
        (g.handOver o reached.1 reached.2.2.1 reached.2.2.2) :=
    related_handOver (handoverLaw_quiet g o _) _ _ _
  have htopic (env : CompileEnv) : HookPhase.beforeCompile.topic env = .before := rfl
  have htopic' (env : CompileEnv) : HookPhase.afterCompile.topic env = .after := rfl
  rw [reachAfter_eq] at hreached
  obtain ⟨hreach, hbefore, -⟩ := chronicle_passing hfire htopic nofun not_false
    (fun _ => not_false) ((keeps_reachBefore hevaluate).chronicle hs) hmake hreached
  rw [← reachAfter_eq] at hreach hbefore
  obtain ⟨hlife, hafter, hsame⟩ := chronicle_passing hfire htopic' nofun nofun nofun
    (fun _ => hreach) hhand (hlive ▸ hne)
  rw [hlive]
  refine ⟨hlife.mono fun t h => h.imp_left fun h => h.resolve_left not_false, ⟨?_, ?_, ?_⟩⟩
  · rw [hlive]
    exact hbefore.bind (hsame .before nofun nofun)
  · rw [hlive]
    exact hafter
  · intro value env w₁ answer w₂ hfirst hsecond
    rw [reachAfter_eq, passing, bind_apply, hfirst] at hsecond
    obtain ⟨left, w₃, hpass, hsecond⟩ := bind_apply_eq_ok.mp hsecond
    obtain ⟨⟨m, a⟩, w₄, -, hsecond⟩ := bind_apply_eq_ok.mp hsecond
    cases hsecond
    change (g.runPass .beforeCompile .none o.scope env w₁).1 = _
    rw [hpass]

end Life
end Engine

/-! ## Closing, and compilations in the midst of others -/

/-- No hooks are called, and what is open under other tickets stays open. -/
structure World.Retires (t : Ticket) (w w' : World) : Prop where
  silent : w.Silent w'
  kept : ∀ m u, u ≠ t → w.registry.opened.get? m = some u → w'.registry.opened.get? m = some u

/-- What is open stays open, and no hooks are called for it. -/
structure World.Bypasses (w w' : World) : Prop where
  grows : w.log <+: w'.log
  kept : ∀ m t, w.registry.opened.get? m = some t →
    w'.registry.opened.get? m = some t ∧ ∀ topic, w.calls m topic w' = []

theorem World.conduct_retires (t : Ticket) : Conduct (World.Retires t) where
  refl w := ⟨World.conduct_silent.refl w, fun _ _ _ h => h⟩
  trans h h' := ⟨World.conduct_silent.trans h.silent h'.silent, fun m u hu hm =>
    h'.kept m u hu (h.kept m u hu hm)⟩

namespace Engine

variable {g : Engine} {o : Opening} {fired : FireDefines} {evaluate : EvaluateBody}
  {bodyDefines : BodyDefines} {t : Ticket}

theorem within_retires_notify (host : Host) (callback m : String) (l : Location) {e : Event}
    (he : ∀ n topic, e.callOf? n topic = none) :
    Within (World.Retires t) (Run.notify host callback m l e) := by
  refine fun w _ => ⟨World.silent_notify host callback m l he w, fun n u _ hn => ?_⟩
  rw [world_notify]
  exact hn

theorem within_retires_closeModule (fulfilled : Bool) :
    Within (World.Retires o.scope.ticket) (g.closeModule o fulfilled) := by
  have hR := World.conduct_retires o.scope.ticket
  have hsilent (r : Registry) (w : World) : w.Silent { w with registry := r } :=
    World.silent_of_log (List.append_nil _).symm nofun
  have hlast : Within (World.Retires o.scope.ticket) (do
      modify fun w : World => { w with registry := w.registry.close o.scope.ticket }
      Run.notify g.host "onModuleClose" o.scope.module o.location
        (.closed o.scope.module fulfilled) : Run Unit) := by
    refine within_bind hR (within_modify fun w => ⟨hsilent _ w, fun m u hu hm => ?_⟩) fun _ =>
      within_retires_notify _ _ _ _ fun _ _ => rfl
    exact (Registry.get?_opened_close ..).mpr ⟨hm, hu⟩
  refine within_bind hR (within_of_unchanged hR fun w => ?_) fun e => ?_
  · rw [entry_apply]
    cases w.registry.find? o.scope.ticket <;> rfl
  · cases e.phase.close? with
    | none => exact hlast
    | some m =>
      refine within_bind hR (within_bind hR ?_ fun _ => ?_) fun _ => hlast
      · exact within_modify fun w => ⟨hsilent _ w, fun _ _ _ hm => hm⟩
      · exact within_retires_notify _ _ _ _ fun _ _ => rfl

theorem within_retires_conclude (outcome : Except Failure CompiledModule) :
    Within (World.Retires o.scope.ticket) (g.conclude o outcome) := by
  have hP := congruence_within (World.conduct_retires o.scope.ticket)
  change within _ (g.conclude o outcome) (g.conclude o outcome)
  cases outcome with
  | ok c => exact hP.bind (within_retires_closeModule true) fun _ => hP.pure c
  | error f =>
    have hreject : within (World.Retires o.scope.ticket) (g.reject (α := CompiledModule) o f)
        (g.reject o f) :=
      hP.bind (within_retires_notify _ _ _ _ fun _ _ => rfl) fun _ => hP.fail _
    refine hP.bind (hP.attempt hreject) fun rejected => ?_
    exact hP.bind (within_retires_closeModule false) fun _ => hP.ofFailure rejected

/-- **The closing of a module calls no hooks**, and leaves open what else is open. -/
theorem retires_finish {w : World} (hne : (g.finish o evaluate w).1 ≠ .error .exhausted) :
    (g.live o evaluate w).1 ≠ .error .exhausted ∧
      World.Retires o.scope.ticket (g.live o evaluate w).2 (g.finish o evaluate w).2 := by
  rcases hlive : g.live o evaluate w with ⟨(f | _) | c, w₁⟩
  case error.exhausted =>
    rw [finish_of_exhausted hlive] at hne
    exact (hne rfl).elim
  all_goals
    rw [finish_eq, bind_apply, attempt, hlive] at hne ⊢
    exact ⟨by simp, within_retires_conclude _ _ hne⟩

/-- A module that is opened stands open with nothing defined, and what was open stays open. -/
theorem opened_frame {name : String} {env : CompileEnv} {w w₁ : World}
    (hopen : g.openModule name env w = (.ok o, w₁)) :
    w.Silent w₁ ∧ o.scope.StandsIn w₁ ∧ w₁.pairsOf o.scope.ticket = [] ∧
      ∀ m t, w.registry.opened.get? m = some t →
        m ≠ o.scope.module ∧ t ≠ o.scope.ticket ∧ w₁.registry.opened.get? m = some t := by
  rcases openModule_cases g name env w with ⟨f, ds, hrefused, -⟩ | ⟨hname, hopened⟩
  · rw [hrefused] at hopen
    cases hopen
  · rw [hopened] at hopen
    cases hopen
    refine ⟨World.silent_of_warnings rfl, ⟨g.get?_opened_opening name env w, _, openIn_opening rfl⟩,
      ?_, fun m t hm => ⟨?_, ?_⟩⟩
    · rw [World.pairsOf, g.find?_opening name env w]
      rfl
    · rintro rfl
      cases hname.symm.trans hm
    · exact get?_opened_of_opening hname hm

theorem compile_of_openModule {name : String} {env : CompileEnv} {w w₁ : World}
    (hopen : g.openModule name env w = (.ok o, w₁)) :
    g.compile name env evaluate w = g.finish o evaluate w₁ := by
  unfold compile
  rw [bind_apply, hopen]

section Compilations

variable (hfire : g.FiresKeeping fired) (hevaluate : EvaluatesKeeping evaluate bodyDefines)
include hfire hevaluate

/-- **Finishing a module that stands open**: hooks are called in its life only. -/
theorem finish_of_standing {w : World} (hs : o.scope.StandsIn w)
    (hne : (g.finish o evaluate w).1 ≠ .error .exhausted) :
    o.scope.Chronicle (fun t => t = .before ∨ t = .after)
        (g.lifeDefines fired o evaluate bodyDefines w) w (g.live o evaluate w).2 ∧
      g.PassesHooks o evaluate w ∧
      World.Retires o.scope.ticket (g.live o evaluate w).2 (g.finish o evaluate w).2 := by
  obtain ⟨hlne, hretires⟩ := retires_finish hne
  obtain ⟨hlife, hpasses⟩ := life_of_opened hfire hevaluate hs hlne
  exact ⟨hlife, hpasses, hretires⟩

/-- **A compilation in the midst of others**: it leaves open what is open, and calls no hooks for
it. -/
theorem bypasses_compile (name : String) (env : CompileEnv) :
    Within World.Bypasses (g.compile name env evaluate) := by
  intro w hne
  rcases hopen : g.openModule name env w with ⟨e | o, w₁⟩
  · rcases openModule_cases g name env w with ⟨f, ds, hrefused, -⟩ | ⟨-, hopened⟩
    · have hsilent : w.Silent { w with log := w.log ++ ds.map (.warned name) } :=
        World.silent_of_warnings rfl
      unfold compile
      rw [bind_apply, hrefused]
      exact ⟨hsilent.grows, fun m t hm => ⟨hm, hsilent.calls m⟩⟩
    · rw [hopen] at hopened
      cases hopened
  · obtain ⟨hsilent, hs, -, hothers⟩ := opened_frame hopen
    rw [compile_of_openModule hopen] at hne ⊢
    obtain ⟨hlife, -, hretires⟩ := finish_of_standing hfire hevaluate hs hne
    have hgrows := hlife.grows.trans hretires.silent.grows
    refine ⟨hsilent.grows.trans hgrows, fun m t hm => ?_⟩
    obtain ⟨hmodule, hticket, hm₁⟩ := hothers m t hm
    obtain ⟨hm₂, hcalls⟩ := hlife.apart m t hmodule hm₁
    refine ⟨hretires.kept m t hticket hm₂, fun topic => ?_⟩
    rw [World.calls_trans hsilent.grows hgrows,
      World.calls_trans hlife.grows hretires.silent.grows, hsilent.calls, hcalls,
      hretires.silent.calls]
    rfl

end Compilations
end Engine
end ModuleBuild
