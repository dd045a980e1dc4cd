import ModuleBuild.Compile.Pipeline
import ModuleBuild.Proofs.Compile.Scope
import ModuleBuild.Proofs.Phase

/-! # What compiling an opened module does

Up to its closing (`live`), the compilation of an opened module makes its artifact
(`prepare`) and hands it over.  Besides running code it logs events, goes from phase to
phase, records the artifact and loads it; a relation of runs that allows these as well
(`PreparingLaw`, `OpeningLaw`) relates the lives of opened modules whose bodies and hooks it
relates (`related_live`), and a law about worlds has to be checked for these steps alone
(`ScopeConduct`).  Opening and closing are what a law has to be checked for by itself.
-/
namespace ModuleBuild

/-- That a module was closed. -/
def Event.isClosing : Event → Bool
  | .closed .. => true
  | _ => false

theorem Event.isClosing_of_isOfCode {e : Event} (h : e.isOfCode = true) : e.isClosing = false := by
  cases e with
  | closed => cases h
  | _ => rfl

/-- That a module goes on in its life: to another phase, or to its end. -/
def Event.isTurning : Event → Bool
  | .moved .. | .closed .. => true
  | _ => false

theorem Event.isClosing_of_isTurning {e : Event} (h : e.isTurning = false) :
    e.isClosing = false := by
  cases e with
  | closed => cases h
  | _ => rfl

theorem Event.isTurning_of_isOfCode {e : Event} (h : e.isOfCode = true) : e.isTurning = false := by
  cases e with
  | moved | closed => cases h
  | _ => rfl

/-- A relation that allows the events that do not say that a module goes on in its life. -/
structure NotifyingLaw (P : RunRelation) : Prop extends RunRelation.Congruence P where
  emit : ∀ {α : Type} (e : Event) (answer : List Event → α), e.isTurning = false →
    P (Run.emit e answer) (Run.emit e answer)

namespace NotifyingLaw

variable {P : RunRelation} (hP : NotifyingLaw P)
include hP

theorem warn (host : Host) (m : String) (d : Diagnostic) :
    P (Run.warn host m d) (Run.warn host m d) := by
  refine hP.bind (hP.emit _ _ rfl) fun answer => ?_
  cases answer with
  | some f => exact hP.fail f
  | none => exact hP.pure ()

/-- Telling observers of an event comes down to the event. -/
theorem notify_of (host : Host) (callback m : String) (l : Location) {e : Event}
    (he : P (Run.emit e host.observe) (Run.emit e host.observe)) :
    P (Run.notify host callback m l e) (Run.notify host callback m l e) := by
  refine hP.bind he fun answer => ?_
  cases answer with
  | some f => exact hP.bind (hP.ofFailure _) fun reason => hP.warn host m _
  | none => exact hP.pure ()

theorem notify (host : Host) (callback m : String) (l : Location) {e : Event}
    (he : e.isTurning = false) :
    P (Run.notify host callback m l e) (Run.notify host callback m l e) :=
  hP.notify_of host callback m l (hP.emit e _ he)

end NotifyingLaw

/-- A relation that allows what making the artifact of an opened module does. -/
structure PreparingLaw (g : Engine) (o : Opening) (P : RunRelation) : Prop
    extends ScopeLaw o.scope P, NotifyingLaw P where
  advance : ∀ target, P (g.advance o target) (g.advance o target)

/-- A relation that allows what the compilation of an opened module does up to its closing. -/
structure OpeningLaw (g : Engine) (o : Opening) (P : RunRelation) : Prop
    extends PreparingLaw g o P where
  recordArtifact : ∀ a, P (modify fun w : World =>
      { w with session := w.session.produce o.scope.module a } : Run Unit)
    (modify fun w => { w with session := w.session.produce o.scope.module a })
  register : ∀ m, P (modify fun w : World => { w with code := w.code.register m } : Run Unit)
    (modify fun w => { w with code := w.code.register m })

/-- A relation that allows what handing the artifact over does. -/
structure HandoverLaw (g : Engine) (o : Opening) (P : RunRelation) : Prop
    extends RunRelation.Congruence P where
  recordArtifact : ∀ a, P (modify fun w : World =>
      { w with session := w.session.produce o.scope.module a } : Run Unit)
    (modify fun w => { w with session := w.session.produce o.scope.module a })
  register : ∀ m, P (modify fun w : World => { w with code := w.code.register m } : Run Unit)
    (modify fun w => { w with code := w.code.register m })
  listen : ∀ id a (listener : List Event → Option Failure),
    P (Run.emit (.listened o.scope.module id o.location.file a) listener)
      (Run.emit (.listened o.scope.module id o.location.file a) listener)
  load : ∀ id (loader : List Event → LoadAnswer),
    P (Run.emit (.loading o.scope.module o.location.file id) loader)
      (Run.emit (.loading o.scope.module o.location.file id) loader)
  announce : ∀ id size, P
    (Run.notify g.host "onModuleAvailable" o.scope.module o.location
      (.available o.scope.module id size))
    (Run.notify g.host "onModuleAvailable" o.scope.module o.location
      (.available o.scope.module id size))

theorem OpeningLaw.handoverLaw {g : Engine} {o : Opening} {P : RunRelation}
    (hP : OpeningLaw g o P) : HandoverLaw g o P where
  toCongruence := hP.toCongruence
  recordArtifact := hP.recordArtifact
  register := hP.register
  listen _ _ listener := hP.emit _ listener rfl
  load _ loader := hP.emit _ loader rfl
  announce _ _ := hP.notify _ _ _ _ rfl

namespace Engine

/-! ## Making the artifact and handing it over -/

/-- Make the artifact of an opened module: up to its building. -/
def make (g : Engine) (o : Opening) (evaluate : EvaluateBody) :
    Run (FormResult × CompileEnv × Assembly × Artifact) := do
  let scope := o.scope
  let (value, env) ← evaluate scope.env scope
  g.advance o .beforeHooks
  let env ← g.runBeforeCompile scope env
  g.advance o .assembling
  let m ← g.assemble o
  m.warnings.forM (Run.warn g.host scope.module)
  g.advance o .building
  let artifact ← g.build o m
  pure (value, env, m, artifact)

/-- Make the artifact of an opened module: up to the end of the hooks after
compilation. -/
def prepare (g : Engine) (o : Opening) (evaluate : EvaluateBody) :
    Run (FormResult × Assembly × Artifact) := do
  let scope := o.scope
  let (value, env) ← evaluate scope.env scope
  g.advance o .beforeHooks
  let env ← g.runBeforeCompile scope env
  g.advance o .assembling
  let m ← g.assemble o
  m.warnings.forM (Run.warn g.host scope.module)
  g.advance o .building
  let artifact ← g.build o m
  g.advance o .afterHooks
  g.runAfterCompile scope env artifact
  pure (value, m, artifact)

theorem prepare_eq (g : Engine) (o : Opening) (evaluate : EvaluateBody) :
    g.prepare o evaluate = (do
      let (value, env, m, a) ← g.make o evaluate
      g.advance o .afterHooks
      g.runAfterCompile o.scope env a
      pure (value, m, a)) := by
  simp only [prepare, make, bind_assoc, pure_bind]

/-- Hand the artifact to the session and to the loader. -/
def handOver (g : Engine) (o : Opening) (value : FormResult) (m : Assembly) (a : Artifact) :
    Run CompiledModule := do
  g.produce o a
  let loaded ← g.load o a
  pure
    { module := o.scope.module, location := o.location, artifact := a, exports := m.exports
      warnings := o.warnings ++ m.warnings, value, loaded }

theorem compileOpened_eq (g : Engine) (o : Opening) (evaluate : EvaluateBody) :
    g.compileOpened o evaluate
      = g.prepare o evaluate >>= fun (value, m, a) => g.handOver o value m a := by
  simp only [compileOpened, prepare, handOver, bind_assoc, pure_bind]

/-- The life of an opened module up to its closing. -/
def live (g : Engine) (o : Opening) (evaluate : EvaluateBody) : Run CompiledModule := do
  Run.notify g.host "onModuleOpen" o.scope.module o.location
    (.opened o.scope.module o.location o.scope.env.compiling)
  g.compileOpened o evaluate

/-- Close a module, and answer with how its life ended. -/
def conclude (g : Engine) (o : Opening) : Except Failure CompiledModule → Run CompiledModule
  | .ok compiled => do
    g.closeModule o true
    pure compiled
  | .error f => do
    let rejected ← Run.attempt (g.reject (α := CompiledModule) o f)
    g.closeModule o false
    Run.ofFailure rejected

theorem finish_eq (g : Engine) (o : Opening) (evaluate : EvaluateBody) :
    g.finish o evaluate = Run.attempt (g.live o evaluate) >>= g.conclude o := by
  unfold finish live
  congr

/-! ## Related compilations -/

variable {g g' : Engine} {o : Opening} {P : RunRelation}

/-- Opening a module depends on the host alone. -/
theorem openModule_congr (hhost : g'.host = g.host) (name : String) (env : CompileEnv) :
    g'.openModule name env = g.openModule name env := by
  obtain ⟨host, fire⟩ := g
  obtain ⟨host', fire'⟩ := g'
  obtain rfl : host' = host := hhost
  rfl

/-- So does closing it. -/
theorem conclude_congr (hhost : g'.host = g.host) (o : Opening) : g'.conclude o = g.conclude o := by
  obtain ⟨host, fire⟩ := g
  obtain ⟨host', fire'⟩ := g'
  obtain rfl : host' = host := hhost
  funext outcome
  cases outcome <;> rfl

section Parts

variable (hP : P.Congruence)
include hP

theorem related_recordOnLoad (hrecord : ∀ p, P (recordLocal o.scope p) (recordLocal o.scope p))
    (vs : List Value) : P (recordOnLoad o vs) (recordOnLoad o vs) := by
  induction vs with
  | nil => exact hP.pure ()
  | cons v rest ih =>
    unfold recordOnLoad
    cases onLoadPair? v with
    | none => exact hP.bind (hP.fail _) fun _ => ih
    | some p => exact hP.bind (hP.option_forM hrecord p) fun _ => ih

theorem related_assemble (hrecord : ∀ p, P (recordLocal o.scope p) (recordLocal o.scope p)) :
    P (g.assemble o) (g.assemble o) := by
  refine hP.bind (hP.attributes _) fun t => ?_
  refine hP.bind (related_recordOnLoad hP hrecord _) fun _ => ?_
  refine hP.bind (hP.entry _) fun e => ?_
  refine hP.bind (hP.ofCondition _) fun attributes => ?_
  refine hP.bind (hP.ofCondition _) fun definitions => ?_
  exact hP.ofFailure _

theorem related_build (m : Assembly) : P (g.build o m) (g.build o m) := by
  refine hP.bind (hP.ofFailure _) fun a => ?_
  split
  · refine hP.bind (hP.entry _) fun e => ?_
    refine hP.bind (hP.ofCondition _) fun attributes => ?_
    exact hP.ofFailure _
  · exact hP.pure a

end Parts

/-- Up to the building of the artifact the module does not enter the hooks after compilation. -/
theorem related_make (hP : ScopeLaw o.scope P) (hN : NotifyingLaw P)
    (hadvance : ∀ target, target ≠ .afterHooks → P (g.advance o target) (g.advance o target))
    (hhost : g'.host = g.host) (hfire : g.FiresRelated g' o.scope P)
    {evaluate evaluate' : EvaluateBody}
    (hevaluate : ∀ env, P (evaluate env o.scope) (evaluate' env o.scope)) :
    P (g.make o evaluate) (g'.make o evaluate') := by
  -- the steps of the pipeline itself depend on the host alone
  obtain ⟨host, fire⟩ := g
  obtain ⟨host', fire'⟩ := g'
  obtain rfl : host' = host := hhost
  refine hP.bind (hevaluate _) fun ⟨value, env⟩ => ?_
  refine hP.bind (hadvance _ nofun) fun _ => ?_
  refine hP.bind (related_runBeforeCompile hP hfire env) fun env => ?_
  refine hP.bind (hadvance _ nofun) fun _ => ?_
  refine hP.bind (related_assemble hP.toCongruence hP.recordLocal :) fun m => ?_
  refine hP.bind (hP.list_forM (hN.warn _ _) m.warnings) fun _ => ?_
  refine hP.bind (hadvance _ nofun) fun _ => ?_
  refine hP.bind (related_build hP.toCongruence m :) fun a => ?_
  exact hP.pure _

theorem related_prepare (hP : PreparingLaw g o P) (hhost : g'.host = g.host)
    (hfire : g.FiresRelated g' o.scope P) {evaluate evaluate' : EvaluateBody}
    (hevaluate : ∀ env, P (evaluate env o.scope) (evaluate' env o.scope)) :
    P (g.prepare o evaluate) (g'.prepare o evaluate') := by
  have hmake := related_make hP.toScopeLaw hP.toNotifyingLaw (fun target _ => hP.advance target)
    hhost hfire hevaluate
  obtain ⟨host, fire⟩ := g
  obtain ⟨host', fire'⟩ := g'
  obtain rfl : host' = host := hhost
  rw [prepare_eq, prepare_eq]
  refine hP.bind hmake fun ⟨value, env, m, a⟩ => ?_
  refine hP.bind (hP.advance _) fun _ => ?_
  refine hP.bind (related_runAfterCompile hP.toScopeLaw hfire env a) fun _ => ?_
  exact hP.pure _

section Handover

variable (hP : HandoverLaw g o P)
include hP

theorem related_produce (a : Artifact) : P (g.produce o a) (g.produce o a) := by
  refine hP.bind (hP.recordArtifact a) fun _ => ?_
  refine hP.bind hP.get fun w => ?_
  cases g.host.listener with
  | none => exact hP.announce _ _
  | some listener =>
    refine hP.bind (hP.listen _ a listener) fun answer => ?_
    cases answer with
    | none => exact hP.announce _ _
    | some f => exact hP.bind (hP.fail f) fun _ => hP.announce _ _

theorem related_load (a : Artifact) : P (g.load o a) (g.load o a) := by
  unfold load
  cases g.host.loader with
  | none => exact hP.bind (hP.register _) fun _ => hP.pure _
  | some loader =>
    refine hP.bind hP.get fun w => ?_
    refine hP.bind (hP.load _ loader) fun answer => ?_
    rcases answer with f | reason | origin
    · exact hP.fail f
    · exact hP.fail _
    · exact hP.pure _

theorem related_handOver (value : FormResult) (m : Assembly) (a : Artifact) :
    P (g.handOver o value m a) (g.handOver o value m a) :=
  hP.bind (related_produce hP a) fun _ => hP.bind (related_load hP a) fun _ => hP.pure _

end Handover

variable (hP : OpeningLaw g o P)
include hP

section Code

variable (hhost : g'.host = g.host) (hfire : g.FiresRelated g' o.scope P)
  {evaluate evaluate' : EvaluateBody}
  (hevaluate : ∀ env, P (evaluate env o.scope) (evaluate' env o.scope))
include hhost hfire hevaluate

theorem related_compileOpened : P (g.compileOpened o evaluate) (g'.compileOpened o evaluate') := by
  have hprepare := related_prepare hP.toPreparingLaw hhost hfire hevaluate
  obtain ⟨host, fire⟩ := g
  obtain ⟨host', fire'⟩ := g'
  obtain rfl : host' = host := hhost
  rw [compileOpened_eq, compileOpened_eq]
  exact hP.bind hprepare fun ⟨value, m, a⟩ => (related_handOver hP.handoverLaw value m a :)

theorem related_live : P (g.live o evaluate) (g'.live o evaluate') := by
  have hopened := related_compileOpened hP hhost hfire hevaluate
  obtain ⟨host, fire⟩ := g
  obtain ⟨host', fire'⟩ := g'
  obtain rfl : host' = host := hhost
  have hnotify := hP.notify host' "onModuleOpen" o.scope.module o.location
    (e := .opened o.scope.module o.location o.scope.env.compiling) rfl
  exact hP.bind hnotify fun _ => hopened

end Code

theorem related_reject {α : Type} (f : Failure) :
    P (g.reject (α := α) o f) (g.reject o f) :=
  hP.bind (hP.notify _ _ _ _ rfl) fun _ => hP.fail _

theorem related_conclude
    (hclose : ∀ fulfilled, P (g.closeModule o fulfilled) (g.closeModule o fulfilled))
    (outcome : Except Failure CompiledModule) :
    P (g.conclude o outcome) (g.conclude o outcome) := by
  cases outcome with
  | ok compiled => exact hP.bind (hclose true) fun _ => hP.pure compiled
  | error f =>
    refine hP.bind (hP.attempt (related_reject hP f)) fun rejected => ?_
    exact hP.bind (hclose false) fun _ => hP.ofFailure rejected

end Engine

/-! ## Laws about worlds -/

/-- A conduct that allows what making the artifact of an opened module does to the world. -/
structure PreparingConduct (t : Ticket) (R : World → World → Prop) : Prop
    extends CodeConduct t R where
  log : ∀ w (e : Event), e.isClosing = false → R w { w with log := w.log ++ [e] }
  move : ∀ w (e : ModuleEntry) p, w.registry.find? t = some e →
    e.phase.next? = some p ∨ p = .closed →
    R w { w with registry := w.registry.update t fun s => { s with phase := p } }

/-- A conduct that allows what the compilation of an opened module does to the world. -/
structure ScopeConduct (t : Ticket) (R : World → World → Prop) : Prop
    extends PreparingConduct t R where
  produce : ∀ w m a, R w { w with session := w.session.produce m a }
  register : ∀ w m, R w { w with code := w.code.register m }

section Conducts

open Run

variable {R : World → World → Prop} {o : Opening}

namespace PreparingConduct

variable (hR : PreparingConduct o.scope.ticket R)
include hR

/-- Events stay within every conduct of the module. -/
theorem notifyingLaw : NotifyingLaw (within R) where
  toCongruence := congruence_within hR.toConduct
  emit e _ he := fun w _ => hR.log w e (Event.isClosing_of_isTurning he)

theorem within_notify (host : Host) (callback m : String) (l : Location) {e : Event}
    (he : ∀ w, R w { w with log := w.log ++ [e] }) :
    Within R (notify host callback m l e) := by
  change within R (notify host callback m l e) (notify host callback m l e)
  exact hR.notifyingLaw.notify_of host callback m l fun w _ => he w

/-- Going from phase to phase. -/
theorem within_move {g : Engine} {m : Phase.Move} {w : World} {e : ModuleEntry}
    (he : w.registry.find? o.scope.ticket = some e)
    (hm : e.phase.next? = some m.2 ∨ m.2 = .closed)
    (hsettles : (g.move o m w).1 ≠ .error .exhausted) : R w (g.move o m w).2 := by
  unfold Engine.move at hsettles ⊢
  rw [bind_apply] at hsettles ⊢
  have hnotify : Within R (notify g.host "onPhase" o.scope.module o.location
      (.moved o.scope.module m)) :=
    within_notify hR _ _ _ _ fun w => hR.log w _ rfl
  exact hR.trans (hR.move w e m.2 he hm) (hnotify _ hsettles)

theorem within_advance (g : Engine) (target : Phase) : Within R (g.advance o target) := by
  intro w
  unfold Engine.advance
  rw [bind_apply, entry_apply]
  cases he : w.registry.find? o.scope.ticket with
  | none => exact fun _ => hR.refl w
  | some e =>
    simp only [bind_apply]
    cases hmove : e.phase.advance o.scope.module target with
    | error c => exact fun _ => hR.refl w
    | ok m => exact within_move hR he (.inl (Phase.next?_of_advance hmove))

/-- **Making an artifact stays within every conduct of the module.** -/
theorem preparingLaw (g : Engine) : PreparingLaw g o (within R) where
  toScopeLaw := hR.toCodeConduct.scopeLaw
  emit := hR.notifyingLaw.emit
  advance := within_advance hR g

theorem within_prepare {g : Engine} {evaluate : EvaluateBody} (hfire : g.FiresWithin o.scope R)
    (hevaluate : ∀ env, Within R (evaluate env o.scope)) : Within R (g.prepare o evaluate) := by
  change within R (g.prepare o evaluate) (g.prepare o evaluate)
  exact Engine.related_prepare (hR.preparingLaw g) rfl hfire hevaluate

end PreparingConduct

namespace ScopeConduct

variable (hR : ScopeConduct o.scope.ticket R)
include hR

/-- **Compiling an opened module stays within every conduct of the module.** -/
theorem openingLaw (g : Engine) : OpeningLaw g o (within R) where
  toPreparingLaw := hR.toPreparingConduct.preparingLaw g
  recordArtifact a := within_modify fun w => hR.produce w _ a
  register m := within_modify fun w => hR.register w m

theorem within_live {g : Engine} {evaluate : EvaluateBody} (hfire : g.FiresWithin o.scope R)
    (hevaluate : ∀ env, Within R (evaluate env o.scope)) : Within R (g.live o evaluate) := by
  change within R (g.live o evaluate) (g.live o evaluate)
  exact Engine.related_live (hR.openingLaw g) rfl hfire hevaluate

/-- So does closing it, if the conduct allows its entry to be closed. -/
theorem within_closeModule {g : Engine}
    (hclose : ∀ w, R w { w with registry := w.registry.close o.scope.ticket })
    {fulfilled : Bool}
    (hclosed : ∀ w, R w { w with log := w.log ++ [.closed o.scope.module fulfilled] }) :
    Within R (g.closeModule o fulfilled) := by
  intro w
  unfold Engine.closeModule
  rw [bind_apply, entry_apply]
  have hlast : Within R (do
      modify fun w : World => { w with registry := w.registry.close o.scope.ticket }
      notify g.host "onModuleClose" o.scope.module o.location
        (.closed o.scope.module fulfilled) : Run Unit) :=
    within_bind hR.toConduct (within_modify hclose) fun _ => hR.within_notify _ _ _ _ hclosed
  cases he : w.registry.find? o.scope.ticket with
  | none => exact fun _ => hR.refl w
  | some e =>
    cases hphase : e.phase.close? with
    | none =>
      simp only [hphase]
      exact hlast w
    | some m =>
      simp only [hphase]
      have hm : m.2 = .closed := congrArg Prod.snd (Phase.eq_of_close? hphase)
      exact within_bind_of hR.toConduct (hR.within_move he (.inr hm)) fun _ => hlast

/-- So does finishing it, however its life ends. -/
theorem within_finish {g : Engine} {evaluate : EvaluateBody} (hfire : g.FiresWithin o.scope R)
    (hevaluate : ∀ env, Within R (evaluate env o.scope))
    (hclose : ∀ w, R w { w with registry := w.registry.close o.scope.ticket })
    (hclosed : ∀ w fulfilled, R w { w with log := w.log ++ [.closed o.scope.module fulfilled] }) :
    Within R (g.finish o evaluate) := by
  rw [Engine.finish_eq]
  have hlive : Within R (g.live o evaluate) := within_live hR hfire hevaluate
  refine within_bind hR.toConduct (within_attempt hlive) fun outcome => ?_
  have hclosing (fulfilled : Bool) : Within R (g.closeModule o fulfilled) :=
    within_closeModule hR hclose fun w => hclosed w fulfilled
  exact Engine.related_conclude (hR.openingLaw g) hclosing outcome

end ScopeConduct
end Conducts
end ModuleBuild
