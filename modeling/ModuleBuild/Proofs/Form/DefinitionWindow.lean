import ModuleBuild.Proofs.Compile.Fulfilled
import ModuleBuild.Proofs.Form.Conduct

/-! # When modules can define

A module can define while its body is evaluated and while the hooks before compilation run.
A definition at any other time is refused; it leaves no trace, and no later one is accepted.
So what the artifact was made of is what the module's table holds until it is closed.
-/
namespace ModuleBuild

open Run

/-- The code of the condition that a failure is. -/
def Failure.code? : Failure → Option Code
  | .condition c _ _ _ _ => some c.code
  | _ => none

theorem DefinitionStore.code_of_define_eq_error {s : DefinitionStore} {d : Definition} {p : Problem}
    (h : s.define d = .error p) : p.condition.code ≠ .definitionsClosed := by
  obtain ⟨module, _ | t⟩ := s
  · cases h
    nofun
  · rw [define_live] at h
    rcases t.define_cases d with ⟨e, hdefine, -⟩ | ⟨old, -, -, hdefine⟩
    · rw [hdefine] at h
      cases h
    · rw [hdefine] at h
      cases h
      nofun

namespace Engine

variable {g : Engine} {scope : ModuleScope} {w w' : World} {n : NewDefinition} {f : Failure}

/-! ## What hooks fail with -/

theorem code?_ofHook {phase : String} {site : Frame} {frames : List Frame}
    {location : Option Location} {c : Code}
    (h : (Failure.ofHook phase site frames f location).code? = some c) : c = .hookFailed := by
  cases hdescribe : f.describe with
  | ok reason =>
    rw [Failure.ofHook_of_describe hdescribe] at h
    cases h
    rfl
  | error e =>
    rw [Failure.ofHook_of_describe_eq_error hdescribe] at h
    obtain ⟨v, fault, -, -, rfl⟩ := Failure.describe_eq_error_iff.mp hdescribe
    cases h

/-- What a hook throws is wrapped, or it cannot be described. -/
theorem code?_of_runHook {phase : HookPhase} {subject : HookSubject} {env : CompileEnv}
    {hook : Value} {c : Code}
    (h : g.runHook phase subject scope env hook w = (.error (.failed f), w'))
    (hc : f.code? = some c) : c = .hookFailed := by
  unfold runHook at h
  rw [bind_apply] at h
  simp only [record, emit_apply] at h
  rw [bind_apply] at h
  split at h
  · next outcome w₁ _ =>
    cases outcome with
    | ok env => cases h
    | error f' =>
      cases h
      exact code?_ofHook hc
  · next e w₁ hattempt =>
    cases exhausted_of_attempt_error hattempt
    cases h

theorem code?_of_runEach {phase : HookPhase} {subject : HookSubject} {env : CompileEnv}
    {hooks : List Value} {c : Code}
    (h : g.runEach phase subject scope env hooks w = (.error (.failed f), w'))
    (hc : f.code? = some c) : c = .hookFailed := by
  induction hooks generalizing w with
  | nil => cases h
  | cons hook rest ih =>
    unfold runEach at h
    rw [bind_apply] at h
    split at h
    · exact ih h
    · next e w₁ hhook =>
      cases h
      exact code?_of_runHook hhook hc

/-- No hook makes a definition fail as one that comes too late does. -/
theorem code?_of_announce {d : Definition} {isNew : Bool}
    (h : g.announce scope n d isNew w = (.error (.failed f), w')) :
    f.code? ≠ some .definitionsClosed := by
  cases isNew with
  | false => cases h
  | true =>
    simp only [announce, bind_apply] at h
    split at h
    · cases h
    · next e w₁ hhooks =>
      cases h
      unfold runOnDefinition at hhooks
      rw [bind_apply] at hhooks
      rcases attributes_cases scope w with ⟨_, t, -, -, hattributes⟩ | ⟨m, hattributes⟩
      · rw [hattributes] at hhooks
        exact fun hc => nomatch code?_of_runEach hhooks hc
      · rw [hattributes] at hhooks
        cases hhooks
        nofun

/-! ## What is refused -/

/-- **A definition in a module that is past the phases for it is refused**, and nothing
happens. -/
theorem define_of_closed (g : Engine) (n : NewDefinition) {e : ModuleEntry}
    (he : w.registry.find? scope.ticket = some e) (hclosed : e.phase.canDefine = false) :
    g.define scope n w = (.error (.failed (.ofProblem ⟨.definitionsClosed n.pair scope.module
      e.phase.name, some (n.definition scope).location⟩)), w) := by
  rw [define_eq, NewDefinition.accept, he]
  simp only [hclosed]
  rfl

/-- A definition that comes too late does so because of the phase, and nothing happens. -/
theorem closed_of_define (h : g.define scope n w = (.error (.failed f), w'))
    (hf : f.code? = some .definitionsClosed) :
    w' = w ∧ ∃ e, w.registry.find? scope.ticket = some e ∧ e.phase.canDefine = false := by
  rw [define_eq] at h
  cases haccept : n.accept scope w with
  | ok answer =>
    obtain ⟨d, isNew, w₁⟩ := answer
    rw [haccept] at h
    exact (code?_of_announce h hf).elim
  | error f' =>
    rw [haccept] at h
    cases h
    refine ⟨rfl, ?_⟩
    unfold NewDefinition.accept at haccept
    split at haccept
    · cases haccept
      cases hf
    · next e he =>
      refine ⟨e, he, ?_⟩
      split at haccept
      · split at haccept
        · next p hp =>
          cases haccept
          exact (DefinitionStore.code_of_define_eq_error hp (Option.some.inj hf)).elim
        · cases haccept
      · next hphase => exact Bool.eq_false_of_not_eq_true hphase

/-- How an engine guards the definitions of modules. -/
structure GuardsDefinitions (g : Engine) : Prop where
  /-- A definition leaves no trace unless the phase allows it and the table takes it. -/
  refused_or_accepted : ∀ (scope : ModuleScope) (n : NewDefinition) (w : World),
    (∃ f, g.define scope n w = (.error (.failed f), w)) ∨
      ∃ e d isNew ds, w.registry.find? scope.ticket = some e ∧
        (e.phase = .evaluating ∨ e.phase = .beforeHooks) ∧
        e.definitions.define (n.definition scope) = .ok (d, isNew, ds)
  /-- In other phases every definition is refused with the code for it. -/
  closed : ∀ (scope : ModuleScope) (n : NewDefinition) (w : World) (e : ModuleEntry),
    w.registry.find? scope.ticket = some e → e.phase ≠ .evaluating → e.phase ≠ .beforeHooks →
    ∃ p, p.condition.code.id = "MODF-D003" ∧
      g.define scope n w = (.error (.failed (.ofProblem p)), w)
  /-- Once one is refused with that code, all later ones are, whatever happens in between. -/
  for_good : ∀ (scope : ModuleScope) (n : NewDefinition) (w w₁ : World) (f : Failure),
    g.define scope n w = (.error (.failed f), w₁) → f.code?.map Code.id = some "MODF-D003" →
    w₁ = w ∧ ∀ w', w.Path w' → ∀ (scope' : ModuleScope) (n' : NewDefinition),
      scope'.ticket = scope.ticket → ∃ p, p.condition.code.id = "MODF-D003" ∧
        g.define scope' n' w' = (.error (.failed (.ofProblem p)), w')

theorem guardsDefinitions (g : Engine) : g.GuardsDefinitions where
  refused_or_accepted scope n w := by
    rw [define_eq]
    cases haccept : n.accept scope w with
    | error f => exact .inl ⟨f, rfl⟩
    | ok answer =>
      obtain ⟨d, isNew, w₁⟩ := answer
      obtain ⟨e, ds, he, hphase, hds, -⟩ := NewDefinition.accept_eq_ok haccept
      exact .inr ⟨e, d, isNew, ds, he, Phase.canDefine_eq_true_iff.mp hphase, hds⟩
  closed scope n w e he hevaluating hbefore := by
    have hclosed : e.phase.canDefine = false := by
      rw [← Bool.not_eq_true, Phase.canDefine_eq_true_iff]
      rintro (h | h)
      · exact hevaluating h
      · exact hbefore h
    exact ⟨_, rfl, define_of_closed g n he hclosed⟩
  for_good scope n w w₁ f h hf := by
    have hcode : f.code? = some .definitionsClosed := by
      obtain ⟨c, hc, hid⟩ := Option.map_eq_some_iff.mp hf
      rw [hc]
      revert hid
      cases c <;> decide
    obtain ⟨rfl, e, he, hclosed⟩ := closed_of_define h hcode
    refine ⟨rfl, fun w' hpath scope' n' hscope => ?_⟩
    obtain ⟨e', he', hleads⟩ := hpath.leadsTo he
    exact ⟨_, rfl, define_of_closed g n' (hscope ▸ he')
      (Phase.canDefine_of_place_le hclosed hleads.phase)⟩

end Engine

/-! ## All that is compiled -/

theorem compileConduct_path (host : Host) : CompileConduct host fun _ => World.Path where
  scope t := (scopeConduct_path t).toCodeConduct
  compile _ _ _ hfire hevaluate name env _ := Engine.path_compile hfire hevaluate name env

theorem compileConduct_spares (host : Host) : CompileConduct host fun _ => World.Spares none where
  scope t := (scopeConduct_spares none t).toCodeConduct
  compile _ _ _ hfire hevaluate name env _ := Engine.spares_compile hfire hevaluate name env

/-- **Modules define in two phases only, and what they have defined is in their artifacts.**
Bodies, hooks and compilations at any depth do nothing but steps, through which definitions
stay closed once one is refused for its phase.  A module that is compiled has, until it is
closed, the definitions that the code chunk of its artifact holds. -/
theorem FormLibrary.definitions_guarded (lib : FormLibrary) (host : Host) (depth : Nat) :
    (lib.engine host depth).GuardsDefinitions ∧
      (∀ scope, (lib.engine host depth).FiresWithin scope World.Path) ∧
      (∀ value env scope forms,
        Within World.Path (lib.evalBody (lib.engine host depth) value env scope forms)) ∧
      (∀ name env body, Within World.Path
        ((lib.engine host depth).compile name env (lib.evaluation (lib.engine host depth) body))) ∧
      ∀ name env body w c w',
        (lib.engine host depth).compile name env (lib.evaluation (lib.engine host depth) body) w
          = (.ok c, w') →
        ∃ o w₁ w₂ e t, (lib.engine host depth).openModule name env w = (.ok o, w₁) ∧
          (lib.engine host depth).live o (lib.evaluation (lib.engine host depth) body) w₁
            = (.ok c, w₂) ∧
          (lib.engine host depth).closeModule o true w₂ = (.ok (), w') ∧
          w₂.registry.find? o.scope.ticket = some e ∧ e.definitions.table = some t ∧
          c.artifact.HoldsDefinitions t := by
  have hhost : (lib.engine host depth).host = host := host_engine depth
  have hfire (scope : ModuleScope) : (lib.engine host depth).FiresWithin scope World.Path :=
    firesWithin_engine (compileConduct_path host) depth scope
  have hspares (scope : ModuleScope) :
      (lib.engine host depth).FiresWithin scope (World.Spares none) :=
    firesWithin_engine (compileConduct_spares host) depth scope
  have hevaluate (value : FormResult) (env : CompileEnv) (scope : ModuleScope)
      (forms : List Form) :
      Within World.Path (lib.evalBody (lib.engine host depth) value env scope forms) :=
    within_evalBody (compileConduct_path host) hhost hfire scope value env forms
  refine ⟨(lib.engine host depth).guardsDefinitions, hfire, hevaluate, ?_, ?_⟩
  · intro name env body
    exact Engine.path_compile hfire (fun env scope => hevaluate _ env scope body) name env
  · intro name env body w c w' h
    obtain ⟨o, w₁, w₂, hopen, hlive, hclose⟩ := Engine.compile_eq_ok h
    obtain ⟨e₁, he₁, hlive₁⟩ := Engine.find?_of_openModule hopen
    obtain ⟨e, t, he, ht, hholds⟩ := Engine.holdsDefinitions_of_live (hfire o.scope)
      (hspares o.scope)
      (fun env => within_evalBody (compileConduct_spares host) hhost hspares o.scope _ env body)
      he₁ hlive₁ hlive
    exact ⟨o, w₁, w₂, e, t, hopen, hlive, hclose, he, ht, hholds⟩

/-! ## A definition that comes too late -/

namespace LateDefinition

/-- A hook after compilation that tries to define. -/
def library : FormLibrary where
  functions := []
  hooks := [{
    name := "Late.__after_compile__"
    applies := fun _ => true
    hook := ⟨[.attempt (.act none (.define .function ⟨"late", 0⟩ none))], none⟩ }]

def host : Host where
  options := .default "/work"
  observe _ := none
  warn _ := none
  listener := none
  loader := none

def env : CompileEnv := ⟨"early", 1, none, none, []⟩

/-- A module that registers the hook. -/
def body : List Form := [.act none (.write "after_compile" (.text "Late"))]

/-- The world before: nothing is open or loaded. -/
def before : World := ⟨.empty, .empty, ⟨"run", []⟩, []⟩

/-- The codes of the failures that hooks have noted down. -/
def noted (log : List Event) : List (Option String) :=
  log.filterMap fun
    | .noted (.tried (.error f)) => some (f.code?.map Code.id)
    | _ => none

end LateDefinition

open LateDefinition in
theorem FormLibrary.definitions_guarded_late :
    ∃ c w' o w₂ e t, library.compile LateDefinition.host "Early" env body before = (.ok c, w') ∧
      noted w'.log = [some "MODF-D003"] ∧
      (library.engineFor LateDefinition.host body).closeModule o true w₂ = (.ok (), w') ∧
      w₂.registry.find? o.scope.ticket = some e ∧ e.definitions.table = some t ∧
      c.artifact.HoldsDefinitions t := by
  have hends : ((library.compile LateDefinition.host "Early" env body before).1.isOk,
      noted (library.compile LateDefinition.host "Early" env body before).2.log)
        = (true, [some "MODF-D003"]) := by decide +kernel
  rcases hrun : library.compile LateDefinition.host "Early" env body before with ⟨stop | c, w'⟩
  · rw [hrun] at hends
    cases hends
  · rw [hrun] at hends
    obtain ⟨o, w₁, w₂, e, t, -, -, hclose, he, ht, hholds⟩ :=
      (FormLibrary.definitions_guarded library LateDefinition.host (library.depth body)).2.2.2.2
        "Early" env body before c w' hrun
    exact ⟨c, w', o, w₂, e, t, rfl, (Prod.mk.inj hends).2, hclose, he, ht, hholds⟩

end ModuleBuild
