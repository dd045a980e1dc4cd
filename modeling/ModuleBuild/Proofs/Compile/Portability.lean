import ModuleBuild.Proofs.Compile.Documentation
import ModuleBuild.Proofs.Compile.Lockstep

/-! # Compilations in lockstep

What a compilation does besides running code keeps runs under the two names of a file in lockstep:
opening the module, assembling and building it, handing its artifact over, closing it and rejecting
it.  So compilations whose bodies and hooks are in lockstep are in lockstep (`lockstep_compile`).
-/
namespace ModuleBuild

open Run

variable {r : Relocation}

/-- Openings of one module under the two names of its file. -/
structure Opening.Relocated (r : Relocation) (o o' : Opening) : Prop where
  scope : ModuleScope.Relocated r o.scope o'.scope
  location : o'.location = o.location
  warnings : o'.warnings = o.warnings

/-- What compilations under the two names answer with. -/
structure CompiledModule.Relocated (r : Relocation) (c c' : CompiledModule) : Prop where
  module : c'.module = c.module
  location : c'.location = c.location
  exports : c'.exports = c.exports
  warnings : c'.warnings = c.warnings
  artifact : Artifact.Relocated r c.artifact c'.artifact
  value : FormResult.Relocated r c.value c'.value
  loaded : LoadedModule.Relocated r c.loaded c'.loaded

/-- Bodies that are evaluated in lockstep. -/
def EvaluateBody.Relocated (r : Relocation) (evaluate evaluate' : EvaluateBody) : Prop :=
  ∀ {env env' : CompileEnv} {scope scope' : ModuleScope}, CompileEnv.Relocated r env env' →
    ModuleScope.Relocated r scope scope' →
    Lockstep r (fun p p' => FormResult.Relocated r p.1 p'.1 ∧ CompileEnv.Relocated r p.2 p'.2)
      (evaluate env scope) (evaluate' env' scope')

namespace Engine

variable {g g' : Engine} (hg : Engine.Relocated r g g')

/-! ## Opening and closing -/

include hg in
/-- A module is opened at the same place, with the same warnings. -/
theorem lockstep_openModule (name : String) {env env' : CompileEnv}
    (henv : CompileEnv.Relocated r env env') :
    Lockstep r (Opening.Relocated r) (g.openModule name env) (g'.openModule name env') := by
  obtain ⟨line, outer, function, compiling⟩ := henv
  refine lockstep_bind lockstep_get fun w w' hw => ?_
  have horigin : (if g'.host.options.ignoreModuleConflict then none else w'.code.get? name).map
        LoadedModule.origin
      = (if g.host.options.ignoreModuleConflict then none else w.code.get? name).map
        LoadedModule.origin := by
    rw [hg.host.ignoreModuleConflict]
    split
    · rfl
    · exact hw.origin_eq name
  dsimp only
  rw [hg.host.path, hg.host.docs, hw.sessionId]
  unfold Registry.openModule
  cases Registry.refusal? name with
  | some c => exact lockstep_bind (lockstep_pure rfl) fun _ _ _ => lockstep_fail_same _
  | none =>
    dsimp only
    rw [Registry.redefinition?_of_origin horigin]
    refine lockstep_bind (lockstep_option_forM (lockstep_warn hg.host name) _) fun _ _ _ => ?_
    have henrol := hw.registry.enrol name w.session.id
      ⟨Path.relativeTo g.host.options.relativeTo r.origin, line⟩ g.host.options.docs
    refine lockstep_bind
      (lockstep_ofProblem (henrol.imp (fun _ _ h => h ▸ .same _) fun _ _ h => h)) ?_
    rintro ⟨ticket, registry⟩ ⟨ticket', registry'⟩ ⟨hticket, hregistry⟩
    obtain rfl : ticket' = ticket := hticket
    refine lockstep_bind (lockstep_modify fun w w' hw => ?_) fun _ _ _ => ?_
    · exact { hw with registry := hregistry }
    · exact lockstep_pure ⟨.mk _ _ (.mk _ _ _ _), rfl, rfl⟩

section Opened

variable {o o' : Opening} (ho : Opening.Relocated r o o')

section Turning

include hg ho

theorem lockstep_move (m : Phase.Move) : Lockstep r Eq (g.move o m) (g'.move o' m) := by
  unfold move
  rw [ho.scope.module, ho.location]
  refine lockstep_bind (lockstep_updateEntry ho.scope fun s s' hs => ?_) fun _ _ _ => ?_
  · exact { hs with phase := rfl }
  · exact lockstep_notify hg.host _ _ _ (.same _)

theorem lockstep_advance (target : Phase) :
    Lockstep r Eq (g.advance o target) (g'.advance o' target) := by
  refine lockstep_bind (lockstep_entry ho.scope) fun e e' he => ?_
  rw [he.state.phase, ho.scope.module]
  refine lockstep_bind (lockstep_ofCondition_self _) ?_
  rintro m _ rfl
  exact lockstep_move hg ho m

theorem lockstep_closeModule (fulfilled : Bool) :
    Lockstep r Eq (g.closeModule o fulfilled) (g'.closeModule o' fulfilled) := by
  have hlast : Lockstep r Eq
      (do
        modify fun w : World => { w with registry := w.registry.close o.scope.ticket }
        Run.notify g.host "onModuleClose" o.scope.module o.location
          (.closed o.scope.module fulfilled) : Run Unit)
      (do
        modify fun w : World => { w with registry := w.registry.close o'.scope.ticket }
        Run.notify g'.host "onModuleClose" o'.scope.module o'.location
          (.closed o'.scope.module fulfilled) : Run Unit) := by
    rw [ho.scope.module, ho.scope.ticket, ho.location]
    refine lockstep_bind (lockstep_modify fun w w' hw => ?_) fun _ _ _ => ?_
    · exact { hw with registry := hw.registry.close _ }
    · exact lockstep_notify hg.host _ _ _ (.same _)
  refine lockstep_bind (lockstep_entry ho.scope) fun e e' he => ?_
  rw [he.state.phase]
  cases e.phase.close? with
  | none => exact hlast
  | some m => exact lockstep_bind (lockstep_move hg ho m) fun _ _ _ => hlast

/-- What a compilation is rejected with speaks of the same function. -/
theorem lockstep_reject {α β : Type} {V : α → β → Prop} {f f' : Failure}
    (hf : Failure.Relocated r f f') :
    Lockstep r V (g.reject o f : Run α) (g'.reject o' f' : Run β) := by
  unfold reject
  rw [ho.scope.module, ho.location]
  have hnormal := hf.normalize o.scope.module (some o.location)
  exact lockstep_bind (lockstep_notify hg.host _ _ _ (.failed _ hnormal)) fun _ _ _ =>
    lockstep_fail hnormal

end Turning

/-! ## Making the artifact -/

include ho in
theorem lockstep_recordOnLoad (vs : List Value) :
    Lockstep r Eq (recordOnLoad o vs) (recordOnLoad o' vs) := by
  induction vs with
  | nil => exact lockstep_pure rfl
  | cons v rest ih =>
    have hrefusal : onLoadRefusal o' v = onLoadRefusal o v := by
      rw [onLoadRefusal, onLoadRefusal, ho.scope.module, ho.location]
    unfold recordOnLoad
    rw [hrefusal]
    cases onLoadPair? v with
    | none => exact lockstep_bind (lockstep_fail_same (U := Eq) _) fun _ _ _ => ih
    | some p =>
      exact lockstep_bind (lockstep_option_forM (lockstep_recordLocal ho.scope) p) fun _ _ _ => ih

include hg ho in
theorem lockstep_assemble :
    Lockstep r (Assembly.Relocated r) (g.assemble o) (g'.assemble o') := by
  refine lockstep_bind (lockstep_attributes ho.scope) ?_
  rintro t _ rfl
  refine lockstep_bind (lockstep_recordOnLoad ho _) fun _ _ _ => ?_
  refine lockstep_bind (lockstep_entry ho.scope) fun e e' he => ?_
  rw [he.state.attributes, hg.host.docs, hg.host.isInternal, ho.scope.module, ho.location]
  refine lockstep_bind (lockstep_ofCondition_self _) ?_
  rintro attributes _ rfl
  refine lockstep_bind (lockstep_ofCondition he.state.definitions.live) fun t t' ht => ?_
  exact lockstep_ofFailure (Assembly.relocated_ofTables ht .same (fun _ _ => .problem) _ _ _ _ _)

include hg ho in
theorem lockstep_build {m m' : Assembly} (hm : Assembly.Relocated r m m') :
    Lockstep r (Artifact.Relocated r) (g.build o m) (g'.build o' m') := by
  have hbuild : Lockstep r (Artifact.Relocated r) (ofFailure m.build) (ofFailure m'.build) :=
    lockstep_ofFailure (hm.build.imp (fun _ _ h => h ▸ .same _) fun _ _ h => h)
  refine lockstep_bind hbuild fun a a' ha => ?_
  rw [hg.host.docs, ho.scope.module, ho.location]
  cases g.host.options.docs with
  | false => exact lockstep_pure ha
  | true =>
    refine lockstep_bind (lockstep_entry ho.scope) fun e e' he => ?_
    rw [he.state.attributes, he.state.docs]
    refine lockstep_bind (lockstep_ofCondition_self _) ?_
    rintro attributes _ rfl
    exact lockstep_ofFailure ((ha.inject _ _ _).imp (fun _ _ h => h ▸ .same _) fun _ _ h => h)

/-! ## Handing it over -/

section HandingOver

variable {a a' : Artifact} (ha : Artifact.Relocated r a a')
include hg ho ha

theorem lockstep_produce : Lockstep r Eq (g.produce o a) (g'.produce o' a') := by
  unfold produce
  rw [ho.scope.module, ho.location]
  refine lockstep_bind (lockstep_modify fun w w' hw => ?_) fun _ _ _ => ?_
  · exact { hw with binaries := List.rel_append hw.binaries (.cons ⟨rfl, ha⟩ .nil) }
  refine lockstep_bind lockstep_get fun w w' hw => ?_
  rw [hw.sessionId]
  have hlistener := hg.host.listener
  have hlast : Lockstep r Eq
      (Run.notify g.host "onModuleAvailable" o.scope.module o.location
        (.available o.scope.module w.session.id a.size))
      (Run.notify g'.host "onModuleAvailable" o.scope.module o.location
        (.available o.scope.module w.session.id a'.size)) :=
    lockstep_notify hg.host _ _ _ (.available _ _ ha)
  generalize g.host.listener = listener at hlistener ⊢
  generalize g'.host.listener = listener' at hlistener ⊢
  cases hlistener with
  | none => exact hlast
  | some hanswers =>
    refine lockstep_bind (lockstep_emit (.listened _ _ _ ha) hanswers) ?_
    rintro answer _ rfl
    cases answer with
    | some f => exact lockstep_bind (lockstep_fail_same (U := Eq) f) fun _ _ _ => hlast
    | none => exact hlast

theorem lockstep_load : Lockstep r (LoadedModule.Relocated r) (g.load o a) (g'.load o' a') := by
  have hloader := hg.host.loader
  unfold load
  rw [ho.scope.module, ho.location]
  generalize g.host.loader = loader at hloader ⊢
  generalize g'.host.loader = loader' at hloader ⊢
  cases hloader with
  | none =>
    refine lockstep_bind (lockstep_modify fun w w' hw => ?_) fun _ _ _ => ?_
    · exact { hw with loaded := hw.loaded.insert _ (.mk _ _ ha) }
    · exact lockstep_pure (.mk _ _ ha)
  | some hanswers =>
    refine lockstep_bind lockstep_get fun w w' hw => ?_
    rw [hw.sessionId]
    refine lockstep_bind (lockstep_emit (.same _) hanswers) ?_
    rintro answer _ rfl
    rcases answer with f | reason | origin
    · exact lockstep_fail_same f
    · exact lockstep_fail_same _
    · exact lockstep_pure (.mk _ _ ha)

end HandingOver

/-! ## From opening to closing -/

section Compile

variable {evaluate evaluate' : EvaluateBody}
  (hevaluate : EvaluateBody.Relocated r evaluate evaluate')
include hg hevaluate

include ho in
theorem lockstep_compileOpened :
    Lockstep r (CompiledModule.Relocated r) (g.compileOpened o evaluate)
      (g'.compileOpened o' evaluate') := by
  refine lockstep_bind (hevaluate ho.scope.env ho.scope) ?_
  rintro ⟨value, env⟩ ⟨value', env'⟩ ⟨hvalue, henv⟩
  refine lockstep_bind (lockstep_advance hg ho _) fun _ _ _ => ?_
  refine lockstep_bind (lockstep_runBeforeCompile ho.scope hg henv) fun env env' henv => ?_
  refine lockstep_bind (lockstep_advance hg ho _) fun _ _ _ => ?_
  refine lockstep_bind (lockstep_assemble hg ho) fun m m' hm => ?_
  have hwarnings : m'.warnings = m.warnings := by rw [hm.others]
  have hexports : m'.exports = m.exports := by rw [hm.others]
  rw [hwarnings, hexports, ho.scope.module, ho.location, ho.warnings]
  refine lockstep_bind (lockstep_list_forM (lockstep_warn hg.host _) _) fun _ _ _ => ?_
  refine lockstep_bind (lockstep_advance hg ho _) fun _ _ _ => ?_
  refine lockstep_bind (lockstep_build hg ho hm) fun a a' ha => ?_
  refine lockstep_bind (lockstep_advance hg ho _) fun _ _ _ => ?_
  refine lockstep_bind (lockstep_runAfterCompile ho.scope hg henv ha) fun _ _ _ => ?_
  refine lockstep_bind (lockstep_produce hg ho ha) fun _ _ _ => ?_
  refine lockstep_bind (lockstep_load hg ho ha) fun l l' hl => ?_
  exact lockstep_pure ⟨rfl, rfl, rfl, rfl, ha, hvalue, hl⟩

include ho in
theorem lockstep_finish :
    Lockstep r (CompiledModule.Relocated r) (g.finish o evaluate) (g'.finish o' evaluate') := by
  have hlive : Lockstep r (CompiledModule.Relocated r)
      (do
        Run.notify g.host "onModuleOpen" o.scope.module o.location
          (.opened o.scope.module o.location o.scope.env.compiling)
        g.compileOpened o evaluate)
      (do
        Run.notify g'.host "onModuleOpen" o'.scope.module o'.location
          (.opened o'.scope.module o'.location o'.scope.env.compiling)
        g'.compileOpened o' evaluate') := by
    rw [ho.scope.module, ho.location, ho.scope.env.compiling_eq]
    exact lockstep_bind (lockstep_notify hg.host _ _ _ (.same _)) fun _ _ _ =>
      lockstep_compileOpened hg ho hevaluate
  refine lockstep_bind (lockstep_attempt hlive) fun outcome outcome' houtcome => ?_
  cases houtcome with
  | ok hc => exact lockstep_bind (lockstep_closeModule hg ho true) fun _ _ _ => lockstep_pure hc
  | error hf =>
    have hreject : Lockstep r (CompiledModule.Relocated r) (g.reject o _) (g'.reject o' _) :=
      lockstep_reject hg ho hf
    refine lockstep_bind (lockstep_attempt hreject) fun rejected rejected' hrejected => ?_
    exact lockstep_bind (lockstep_closeModule hg ho false) fun _ _ _ =>
      lockstep_ofFailure hrejected

/-- **Compilations under the two names are in lockstep** if their bodies are. -/
theorem lockstep_compile (name : String) {env env' : CompileEnv}
    (henv : CompileEnv.Relocated r env env') :
    Lockstep r (CompiledModule.Relocated r) (g.compile name env evaluate)
      (g'.compile name env' evaluate') :=
  lockstep_bind (lockstep_openModule hg name henv) fun _ _ ho => lockstep_finish hg ho hevaluate

end Compile
end Opened
end Engine
end ModuleBuild
